import ProcessImage.Proofs.Cache.History
import ProcessImage.Proofs.Cache.Quiet
import ProcessImage.Proofs.Station.Parts

/-!
# Passages of a station

A passage leads from one state of a station to a later one, while events are
posted to channels.  A `Passage` tells in what order they are posted, which of
them are echoes of writes, and what each variable hears.

A write within a callback is echoed in the middle of the delivery that caused the
callback, and those who still wait for that delivery hear of the echo first.  So
each variable hears all that is posted to its channel; in the order of the posts
it does so as long as no variable ahead of it on the channel writes.
-/

namespace ProcessImage

/-- The state of a variable after it heard of an event.  What it cannot decode
changes nothing. -/
def Variable.follow (pv : Variable) (state : Cache.State) (event : Channel.Event) : Cache.State :=
  match pv.changeOf event with
  | .ok change => state.after change
  | .error _ => state

namespace Variable

variable {pv : Variable} {state : Cache.State} {channel : Channel} {update : Channel.Update}

theorem follow_updated_of_error {fault : Fault} (failed : pv.decode update.payload = .error fault) :
    pv.follow state (.updated update) = state := by
  simp [follow, changeOf, failed]

theorem follow_updated_of_ok {value : Value} {changed : List Path}
    (decoded : pv.decode update.payload = .ok (value, changed)) :
    pv.follow state (.updated update) = state.update value changed update.metadata := by
  simp [follow, changeOf, decoded, Cache.State.after]

/-- A variable knows of the connection of its channel. -/
theorem isConnected_follow (known : state.isConnected = channel.connected)
    (event : Channel.Event) :
    (pv.follow state event).isConnected = (channel.after event).connected := by
  cases event with
  | updated update =>
      cases decoded : pv.decode update.payload with
      | error fault =>
          rw [follow_updated_of_error decoded]
          exact known
      | ok result =>
          rw [follow_updated_of_ok decoded]
          exact (Cache.State.isConnected_after (.updated ..)).trans known
  | connected => rfl
  | disconnected => rfl
  | cleared => exact known

theorem isConnected_foldl_follow (known : state.isConnected = channel.connected)
    (events : List Channel.Event) :
    (events.foldl pv.follow state).isConnected =
      (events.foldl Channel.after channel).connected := by
  induction events generalizing state channel with
  | nil => exact known
  | cons event rest ih => exact ih (isConnected_follow known event)

end Variable

/-- The update that comes back for a write. -/
def Network.Write.echo (write : Network.Write) : String × Channel.Event :=
  (write.channel, .updated { payload := write.payload })

/-- Events do not change who listens. -/
@[simp]
theorem Channel.listeners_foldl_after (events : List Channel.Event) (channel : Channel) :
    (events.foldl Channel.after channel).listeners = channel.listeners := by
  induction events generalizing channel with
  | nil => rfl
  | cons event rest ih =>
      rw [List.foldl_cons, ih]
      cases event <;> rfl

namespace Station

/-! ## Posts -/

/-- The events on one channel. -/
def eventsOn (name : String) (posted : List (String × Channel.Event)) : List Channel.Event :=
  (posted.filter (·.1 = name)).map (·.2)

@[simp]
theorem eventsOn_nil (name : String) : eventsOn name [] = [] :=
  rfl

@[simp]
theorem eventsOn_append (name : String) (first second : List (String × Channel.Event)) :
    eventsOn name (first ++ second) = eventsOn name first ++ eventsOn name second := by
  simp [eventsOn]

theorem eventsOn_cons (name other : String) (event : Channel.Event)
    (posted : List (String × Channel.Event)) :
    eventsOn name ((other, event) :: posted) =
      if other = name then event :: eventsOn name posted else eventsOn name posted := by
  by_cases same : other = name <;> simp [eventsOn, same]

/-! ## Passages -/

/-- Posts, echoes among them, and what variables hear on the way from one state of
a station to another. -/
structure Passage (before after : Station) (posted echoed : List (String × Channel.Event))
    (heard : Nat → List Channel.Event) : Prop where
  protocol : after.network.protocol = before.network.protocol
  mode : after.network.mode = before.network.mode
  channel : ∀ name, after.network.channel name =
    (eventsOn name posted).foldl Channel.after (before.network.channel name)
  writes : after.network.writes.map Network.Write.echo =
    before.network.writes.map Network.Write.echo ++ echoed
  /-- A variable follows what it hears, and never gets more writes to make. -/
  pv : ∀ {number : Nat} {pv : Variable}, before.pv? number = some pv →
    ∃ cache : Cache, after.pv? number = some { pv with cache } ∧
      cache.state = (heard number).foldl pv.follow pv.cache.state ∧
      (pv.cache.Quiet → cache.Quiet)
  gone : ∀ {number : Nat}, before.pv? number = none → after.pv? number = none
  places : after.pvs.length = before.pvs.length

variable {before middle after station : Station} {number : Nat} {pv : Variable}
  {posted echoed posted' echoed' : List (String × Channel.Event)}
  {heard heard' : Nat → List Channel.Event}

/-- Nothing happens where the network and the variables stay. -/
theorem Passage.still (network : after.network = before.network) (pvs : after.pvs = before.pvs) :
    Passage before after [] [] fun _ => [] := by
  have same (number : Nat) : after.pv? number = before.pv? number := by simp [pv?, pvs]
  constructor
  case protocol => rw [network]
  case mode => rw [network]
  case channel => simp [network]
  case writes => simp [network]
  case pv =>
    intro number pv isPv
    exact ⟨pv.cache, (same number).trans isPv, rfl, id⟩
  case gone =>
    intro number none
    exact (same number).trans none
  case places => rw [pvs]

theorem Passage.trans (first : Passage before middle posted echoed heard)
    (second : Passage middle after posted' echoed' heard') :
    Passage before after (posted ++ posted') (echoed ++ echoed')
      fun number => heard number ++ heard' number := by
  constructor
  case protocol => rw [second.protocol, first.protocol]
  case mode => rw [second.mode, first.mode]
  case channel =>
    intro name
    rw [second.channel, first.channel, eventsOn_append, List.foldl_append]
  case writes => rw [second.writes, first.writes, List.append_assoc]
  case pv =>
    intro number pv isPv
    obtain ⟨cache, isMiddle, state, quiet⟩ := first.pv isPv
    obtain ⟨cache', isAfter, state', quiet'⟩ := second.pv isMiddle
    refine ⟨cache', isAfter, ?_, fun isQuiet => quiet' (quiet isQuiet)⟩
    rw [List.foldl_append, ← state]
    exact state'
  case gone => exact fun none => second.gone (first.gone none)
  case places => rw [second.places, first.places]

/-- The history is no part of what a passage tells. -/
theorem Passage.record (passage : Passage before after posted echoed heard)
    (entries : List (Entry Station.Event)) :
    Passage before (after.record entries) posted echoed heard := by
  have still : Passage after (after.record entries) [] [] fun _ => [] := .still rfl rfl
  simpa using passage.trans still

theorem Passage.listeners (passage : Passage before after posted echoed heard) (name : String) :
    after.network.listeners name = before.network.listeners name := by
  simp [Network.listeners, passage.channel]

/-- A variable was there before. -/
theorem Passage.exists_before (passage : Passage before after posted echoed heard)
    (isPv : after.pv? number = some pv) :
    ∃ old, before.pv? number = some old ∧ old.name = pv.name ∧
      (old.cache.Quiet → pv.cache.Quiet) := by
  cases wasPv : before.pv? number with
  | none => rw [passage.gone wasPv] at isPv; cases isPv
  | some old =>
      obtain ⟨cache, isAfter, _, quiet⟩ := passage.pv wasPv
      obtain rfl := Option.some.inj (isAfter.symm.trans isPv)
      exact ⟨old, rfl, rfl, quiet⟩

/-- One variable follows events where nothing but its cache changes. -/
theorem Passage.of_cache (network : after.network = before.network)
    (others : ∀ other ≠ number, after.pv? other = before.pv? other)
    (wasPv : before.pv? number = some pv) (cache : Cache)
    (isPv : after.pv? number = some { pv with cache }) {events : List Channel.Event}
    (state : cache.state = events.foldl pv.follow pv.cache.state)
    (quiet : pv.cache.Quiet → cache.Quiet) (places : after.pvs.length = before.pvs.length) :
    Passage before after [] [] fun other => if other = number then events else [] := by
  constructor
  case protocol => rw [network]
  case mode => rw [network]
  case channel => simp [network]
  case writes => simp [network]
  case pv =>
    intro other otherPv isOther
    by_cases same : other = number
    · subst same
      obtain rfl := Option.some.inj (wasPv.symm.trans isOther)
      exact ⟨cache, isPv, by simp [state], quiet⟩
    · exact ⟨otherPv.cache, (others other same).trans isOther, by simp [same], id⟩
  case gone =>
    intro other none
    have ne : other ≠ number := by
      rintro rfl
      rw [none] at wasPv
      cases wasPv
    exact (others other ne).trans none
  case places => exact places

theorem Passage.setCache (isPv : station.pv? number = some pv) (cache : Cache)
    {events : List Channel.Event} (state : cache.state = events.foldl pv.follow pv.cache.state)
    (quiet : pv.cache.Quiet → cache.Quiet) :
    Passage station (station.setCache number cache) [] []
      fun other => if other = number then events else [] :=
  .of_cache (network_setCache ..) (fun _ ne => pv?_setCache_of_ne ne cache) isPv cache
    (pv?_setCache isPv cache) state quiet (length_setCache ..)

/-! ## Order of subscription -/

/-- What ties variables and channels together where writes are echoed: a variable
listens to the channel of its name, once and alone. -/
structure Tuned (station : Station) : Prop where
  mode : station.network.mode = .echo
  nodup : ∀ name, (station.network.listeners name).Nodup
  listens : ∀ {number pv}, station.pv? number = some pv →
    .pv number ∈ station.network.listeners pv.name
  exists_pv : ∀ {number name}, .pv number ∈ station.network.listeners name →
    ∃ pv, station.pv? number = some pv ∧ pv.name = name

/-- Modes, listeners and the names of variables are all that matters. -/
theorem Tuned.congr (tuned : before.Tuned) (mode : after.network.mode = before.network.mode)
    (listeners : ∀ name, after.network.listeners name = before.network.listeners name)
    (names : ∀ number,
      (after.pv? number).map Variable.name = (before.pv? number).map Variable.name) :
    after.Tuned := by
  constructor
  case mode => rw [mode, tuned.mode]
  case nodup =>
    intro name
    rw [listeners]
    exact tuned.nodup name
  case listens =>
    intro number pv isPv
    have named := names number
    rw [isPv] at named
    obtain ⟨old, wasPv, same⟩ := Option.map_eq_some_iff.mp named.symm
    rw [listeners, ← same]
    exact tuned.listens wasPv
  case exists_pv =>
    intro number name listens
    rw [listeners] at listens
    obtain ⟨old, wasPv, rfl⟩ := tuned.exists_pv listens
    have named := names number
    rw [wasPv] at named
    exact Option.map_eq_some_iff.mp named

theorem Passage.tuned (passage : Passage before after posted echoed heard)
    (tuned : before.Tuned) : after.Tuned := by
  refine tuned.congr passage.mode passage.listeners fun number => ?_
  cases wasPv : before.pv? number with
  | none => rw [passage.gone wasPv]
  | some pv =>
      obtain ⟨cache, isPv, _⟩ := passage.pv wasPv
      rw [isPv]
      rfl

/-- Whether no variable that stands ahead of a variable on its channel has a write
left. -/
def Leads (station : Station) (number : Nat) : Prop :=
  ∀ pv ahead behind, station.pv? number = some pv →
    station.network.listeners pv.name = ahead ++ .pv number :: behind →
    ∀ other otherPv, .pv other ∈ ahead → station.pv? other = some otherPv → otherPv.cache.Quiet

theorem Passage.leads (passage : Passage before after posted echoed heard)
    (leads : before.Leads number) : after.Leads number := by
  intro pv ahead behind isPv listeners other otherPv isAhead isOther
  obtain ⟨old, wasPv, name, _⟩ := passage.exists_before isPv
  obtain ⟨oldOther, wasOther, _, quiet⟩ := passage.exists_before isOther
  rw [passage.listeners, ← name] at listeners
  exact quiet (leads old ahead behind wasPv listeners other oldOther isAhead wasOther)

/-! ## Deliveries -/

/-- A passage by which each variable hears what is due to it and what is posted to
its channel meanwhile, and in this order when no variable ahead of it writes. -/
def Delivery (before after : Station) (posted echoed : List (String × Channel.Event))
    (due : Nat → List Channel.Event) : Prop :=
  ∃ heard, Passage before after posted echoed heard ∧
    ∀ number pv, before.pv? number = some pv →
      (heard number).Perm (due number ++ eventsOn pv.name posted) ∧
      (before.Leads number → heard number = due number ++ eventsOn pv.name posted)

variable {due due' : Nat → List Channel.Event}

/-- Where nothing is posted all hear exactly what is due. -/
theorem Delivery.of_passage (passage : Passage before after [] echoed due) :
    Delivery before after [] echoed due :=
  ⟨due, passage, fun number pv _ => by simp⟩

/-- Where nothing is posted and at most one event is due to each, there is only one
order to hear what is due. -/
theorem Delivery.passage (delivery : Delivery before after [] echoed due)
    (single : ∀ number, (due number).length ≤ 1) : Passage before after [] echoed due := by
  obtain ⟨heard, passage, hears⟩ := delivery
  refine { passage with pv := ?_ }
  intro number pv isPv
  have same : heard number = due number := by
    have perm := (hears number pv isPv).1
    rw [eventsOn_nil, List.append_nil] at perm
    cases isDue : due number with
    | nil => simpa [isDue] using perm
    | cons event rest =>
        have none : rest = [] := by simpa [isDue] using single number
        simpa [isDue, none] using perm
  rw [← same]
  exact passage.pv isPv

theorem Delivery.tuned (delivery : Delivery before after posted echoed due)
    (tuned : before.Tuned) : after.Tuned := by
  obtain ⟨heard, passage, _⟩ := delivery
  exact passage.tuned tuned

/-- One delivery after another is a delivery of both, unless something that is due
to a leading variable comes after a post to its channel. -/
theorem Delivery.trans (first : Delivery before middle posted echoed due)
    (second : Delivery middle after posted' echoed' due')
    (punctual : ∀ number pv, before.pv? number = some pv → before.Leads number →
      due' number = [] ∨ eventsOn pv.name posted = []) :
    Delivery before after (posted ++ posted') (echoed ++ echoed')
      fun number => due number ++ due' number := by
  obtain ⟨heard, passage, hears⟩ := first
  obtain ⟨heard', passage', hears'⟩ := second
  refine ⟨_, passage.trans passage', fun number pv isPv => ?_⟩
  obtain ⟨cache, isMiddle, _⟩ := passage.pv isPv
  obtain ⟨perm, ordered⟩ := hears number pv isPv
  obtain ⟨perm', ordered'⟩ := hears' number _ isMiddle
  rw [eventsOn_append]
  constructor
  · calc
      List.Perm (heard number ++ heard' number)
          ((due number ++ eventsOn pv.name posted) ++
            (due' number ++ eventsOn pv.name posted')) := perm.append perm'
      List.Perm _
          ((due number ++ due' number) ++
            (eventsOn pv.name posted ++ eventsOn pv.name posted')) := by
        simp only [List.append_assoc]
        exact (List.perm_append_comm_assoc ..).append_left _
  · intro leads
    rw [ordered leads, ordered' (passage.leads leads)]
    rcases punctual number pv isPv leads with none | none <;> simp [none]

/-- Nothing due and nothing posted can be added on either side. -/
theorem Delivery.of_still (still : Passage before middle [] [] fun _ => [])
    (delivery : Delivery middle after posted echoed due) :
    Delivery before after posted echoed due := by
  simpa using (Delivery.of_passage still).trans delivery fun _ _ _ _ => .inr rfl

theorem Delivery.still (delivery : Delivery before middle posted echoed due)
    (still : Passage middle after [] [] fun _ => []) :
    Delivery before after posted echoed due := by
  simpa using delivery.trans (.of_passage still) fun _ _ _ _ => .inl rfl

end Station

end ProcessImage
