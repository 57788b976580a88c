import ProcessImage.Proofs.Station.Echo

/-!
# Traffic

While its variables stay, a station is driven by what happens to channels from
outside and by writes.  Each of these operations is a delivery: it posts an event
of its own, unless it is a write, and then the echoes of all writes that it
causes, in the order in which the network took them.
-/

namespace ProcessImage

/-- What drives a station whose variables stay. -/
inductive Traffic where
  | connect (name : String)
  | disconnect (name : String)
  | clear (name : String)
  | post (name : String) (update : Channel.Update)
  /-- A payload is written to a channel. -/
  | submit (name : String) (payload : Payload)
  /-- A value is written to a variable. -/
  | set (number : Nat) (value : Value)

/-- The event that an operation posts before all echoes. -/
def Traffic.event? : Traffic → Option (String × Channel.Event)
  | connect name => some (name, .connected)
  | disconnect name => some (name, .disconnected)
  | clear name => some (name, .cleared)
  | post name update => some (name, .updated update)
  | submit .. | set .. => none

namespace Station

/-- The station after an operation. -/
def perform (station : Station) : Traffic → Station
  | .connect name => station.connect name
  | .disconnect name => station.disconnect name
  | .clear name => station.clear name
  | .post name update => station.post name update
  | .submit name payload =>
      match station.submit name payload with
      | .ok (after, _) => after
      | .error _ => station
  | .set number value => (station.set number value).1

/-- The station after operations, one after the other. -/
def run (station : Station) (traffic : List Traffic) : Station :=
  traffic.foldl perform station

/-- The echoes of the writes that a network took on the way from one state of a
station to another. -/
def echoes (before after : Station) : List (String × Channel.Event) :=
  (after.network.writes.drop before.network.writes.length).map Network.Write.echo

/-- All that operations post, in the order of the posts. -/
def posted (station : Station) : List Traffic → List (String × Channel.Event)
  | [] => []
  | operation :: rest =>
      operation.event?.toList ++ station.echoes (station.perform operation) ++
        (station.perform operation).posted rest

variable {station before after : Station}

/-- The echoes of a passage can be told from the writes that were taken. -/
theorem Passage.echoed_eq {postings echoed : List (String × Channel.Event)}
    {heard : Nat → List Channel.Event} (passage : Passage before after postings echoed heard) :
    echoed = before.echoes after := by
  unfold echoes
  rw [List.map_drop, passage.writes]
  exact (List.drop_left' (List.length_map _)).symm

/-- Each operation is a delivery of its own event and of the echoes after it. -/
theorem delivery_perform (tuned : station.Tuned) (operation : Traffic) :
    Delivery station (station.perform operation)
      (operation.event?.toList ++ station.echoes (station.perform operation))
      (station.echoes (station.perform operation)) fun _ => [] := by
  have delivery : ∃ echoed, Delivery station (station.perform operation)
      (operation.event?.toList ++ echoed) echoed fun _ => [] := by
    have writes := echoes_writer station.writesLeft
    cases operation with
    | connect name =>
        have noted : Passage station
            (station.leave [.debug ("[loopback] " ++ name ++ " connected")]) [] [] fun _ => [] :=
          .still rfl rfl
        obtain ⟨echoed, delivered⟩ := delivery_dispatch writes (noted.tuned tuned) name .connected
        exact ⟨echoed, delivered.of_still noted⟩
    | disconnect name =>
        have noted : Passage station
            (station.leave [.debug ("[loopback] " ++ name ++ " disconnected")]) [] []
            fun _ => [] :=
          .still rfl rfl
        obtain ⟨echoed, delivered⟩ :=
          delivery_dispatch writes (noted.tuned tuned) name .disconnected
        exact ⟨echoed, delivered.of_still noted⟩
    | clear name => exact delivery_dispatch writes tuned name .cleared
    | post name update => exact delivery_dispatch writes tuned name (.updated update)
    | submit name payload =>
        cases submitted : station.submit name payload with
        | error fault =>
            refine ⟨[], ?_⟩
            simp only [perform, submitted]
            exact .of_passage (.still rfl rfl)
        | ok result =>
            obtain ⟨echoed, delivered⟩ := delivery_submitWith writes tuned submitted
            refine ⟨echoed, ?_⟩
            simp only [perform, submitted]
            exact delivered
    | set number value => exact delivery_setWith writes tuned number value
  obtain ⟨echoed, delivered⟩ := delivery
  have told : echoed = station.echoes (station.perform operation) := by
    obtain ⟨heard, passage, _⟩ := delivered
    exact passage.echoed_eq
  rwa [← told]

/-- A run is a delivery of all that its operations post. -/
theorem delivery_run (tuned : station.Tuned) (traffic : List Traffic) :
    ∃ echoed, Delivery station (station.run traffic) (station.posted traffic) echoed
      fun _ => [] := by
  induction traffic generalizing station with
  | nil => exact ⟨[], .of_passage (.still rfl rfl)⟩
  | cons operation rest ih =>
      have performed := delivery_perform tuned operation
      obtain ⟨echoed, delivered⟩ := ih (performed.tuned tuned)
      exact ⟨_, performed.trans delivered fun _ _ _ _ => .inl rfl⟩

end Station

end ProcessImage
