import Mathlib.Data.List.Nodup
import ProcessImage.Proofs.Station.Telling

/-!
# Variables in step with their channels

A variable knows of the connection of its channel twice: by what was replayed when it
came, and by what it heard since.  Whatever variables come and go, on whatever
channels, the two agree, every variable goes on to hear of its channel, and of no
other.
-/

namespace ProcessImage.Station

/-- Number of variables on a channel. -/
def population (station : Station) (name : String) : Nat :=
  station.pvs.countP (·.any (·.name = name))

variable {station : Station} {operation : Operation} {number : Nat} {pv : Variable}

theorem pvs_eq_map (station : Station) :
    station.pvs = (List.range station.pvs.length).map station.pv? := by
  apply List.ext_getElem (by simp)
  intro number inside _
  simp [pv?, inside]

/-- Where no bare observer ever came, the variables of a channel are those who listen
to it. -/
theorem Seated.length_listeners (seated : station.Seated) (unwatched : station.observers = [])
    (name : String) : (station.network.listeners name).length = station.population name := by
  let numbers := (List.range station.pvs.length).filter fun number =>
    (station.pv? number).any (·.name = name)
  have mem_numbers {number : Nat} :
      number ∈ numbers ↔ ∃ pv, station.pv? number = some pv ∧ pv.name = name := by
    simp only [numbers, List.mem_filter, List.mem_range, Option.any_eq_true, decide_eq_true_eq]
    exact and_iff_right_of_imp fun ⟨_, isPv, _⟩ => lt_length_of_pv? isPv
  have nodup : (numbers.map Channel.Listener.pv).Nodup :=
    List.Nodup.map (fun _ _ => Channel.Listener.pv.inj) (List.Nodup.filter _ List.nodup_range)
  have same : (station.network.listeners name).Perm (numbers.map .pv) := by
    rw [List.perm_ext_iff_of_nodup (seated.once name) nodup]
    intro listener
    constructor
    · intro listens
      obtain ⟨⟨id, other⟩, inside, same⟩ := List.mem_map.mp listens
      obtain rfl : other = listener := same
      cases other with
      | pv number =>
          obtain ⟨pv, isPv, isNamed, _⟩ := seated.owned inside
          exact List.mem_map_of_mem (mem_numbers.mpr ⟨pv, isPv, isNamed⟩)
      | observer number =>
          have known := seated.watched inside
          rw [unwatched] at known
          cases known
    · intro inside
      obtain ⟨number, isNumber, rfl⟩ := List.mem_map.mp inside
      obtain ⟨pv, isPv, rfl⟩ := mem_numbers.mp isNumber
      exact List.mem_map.mpr ⟨_, seated.listens isPv, rfl⟩
  rw [same.length_eq, List.length_map, population, pvs_eq_map, List.countP_map,
    List.countP_eq_length_filter]
  rfl

/-- Everyone is in step: variables know of connections, hear of their own channels and
of no other, and nobody else listens. -/
structure InStep (station : Station) : Prop where
  connected : ∀ {number pv}, station.pv? number = some pv →
    pv.cache.state.isConnected = station.network.isConnected pv.name
  counted : ∀ name, (station.network.listeners name).length = station.population name
  apart : ∀ {number other pv otherPv}, station.pv? number = some pv →
    station.pv? other = some otherPv → pv.subscription = otherPv.subscription → number = other
  /-- What happens to a channel is heard by all variables there, and by no others. -/
  hears : ∀ {traffic name event}, Traffic.event? traffic = some (name, event) →
    Told station (station.perform traffic) name [event]
  /-- The others stay when a variable is dropped, and go on to hear. -/
  stays : ∀ {number other pv}, station.pv? other = some pv → other ≠ number →
    (station.dropVariable number).pv? other = some pv ∧
      ∀ {traffic event}, Traffic.event? traffic = some (pv.name, event) →
        ∃ cache, ((station.dropVariable number).perform traffic).pv? other =
            some { pv with cache } ∧ cache.state = pv.follow pv.cache.state event
  /-- What concerns another channel leaves a variable as it is. -/
  elsewhere : ∀ {operation number pv}, Operation.Silent operation →
    station.pv? number = some pv → operation.channel? station ≠ some pv.name →
      ∃ cache, (station.operate operation).pv? number = some { pv with cache } ∧
        cache.state = pv.cache.state

theorem pv?_dropVariable_of_ne {other : Nat} (isOther : station.pv? other = some pv)
    (different : other ≠ number) : (station.dropVariable number).pv? other = some pv := by
  cases isPv : station.pv? number with
  | none =>
      unfold Station.dropVariable
      rw [isPv]
      exact isOther
  | some dropped =>
      rw [pv?_dropVariable isPv, if_neg different]
      exact isOther

/-- A variable hears of an event on its channel. -/
theorem Told.follow {before after : Station} {event : Channel.Event}
    (told : Told before after pv.name [event]) (isPv : before.pv? number = some pv) :
    ∃ cache, after.pv? number = some { pv with cache } ∧
      cache.state = pv.follow pv.cache.state event := by
  obtain ⟨cache, isAfter, state⟩ := told.pv isPv
  exact ⟨cache, isAfter, state.trans (if_pos rfl)⟩

/-- What concerns another channel leaves a variable as it is. -/
theorem Orderly.operate_elsewhere (orderly : station.Orderly) (silent : operation.Silent)
    (isPv : station.pv? number = some pv) (elsewhere : operation.channel? station ≠ some pv.name) :
    ∃ cache, (station.operate operation).pv? number = some { pv with cache } ∧
      cache.state = pv.cache.state := by
  have still : ∃ cache, station.pv? number = some { pv with cache } ∧
      cache.state = pv.cache.state := ⟨pv.cache, isPv, rfl⟩
  cases operation with
  | dropVariable dropped =>
      have different : number ≠ dropped := by
        rintro rfl
        exact elsewhere (congrArg (Option.map _) isPv)
      exact ⟨pv.cache, pv?_dropVariable_of_ne isPv different, rfl⟩
  | observe name =>
      unfold Station.operate
      dsimp only
      split
      next added => exact (orderly.kept_observe added).2 isPv
      next => exact still
  | _ =>
      rcases orderly.told_operate silent nofun nofun with unmoved | ⟨name, events, concerns, told⟩
      · rw [unmoved.pv?]
        exact still
      · obtain ⟨cache, isAfter, state⟩ := told.pv isPv
        rw [if_neg fun same => elsewhere (concerns.trans (congrArg some same.symm))] at state
        exact ⟨cache, isAfter, state⟩

theorem Orderly.inStep (orderly : station.Orderly) (unwatched : station.observers = []) :
    station.InStep where
  connected := orderly.knows
  counted := orderly.toSeated.length_listeners unwatched
  apart := orderly.apart
  hears := orderly.told_perform
  stays {number other pv} isOther different := by
    have isLeft : (station.dropVariable number).pv? other = some pv :=
      pv?_dropVariable_of_ne isOther different
    refine ⟨isLeft, fun happens => ?_⟩
    exact ((orderly.dropVariable number).told_perform happens).follow isLeft
  elsewhere := orderly.operate_elsewhere

/-! ## Runs -/

theorem Orderly.observers_operate (orderly : station.Orderly) (silent : operation.Silent)
    (unwatched : ∀ name, operation ≠ .observe name) :
    (station.operate operation).observers = station.observers := by
  cases operation with
  | dropVariable number =>
      unfold Station.operate Station.dropVariable
      dsimp only
      cases station.pv? number with
      | none => rfl
      | some pv => rfl
  | observe name => exact absurd rfl (unwatched name)
  | _ =>
      rcases orderly.told_operate silent nofun nofun with unmoved | ⟨name, events, _, told⟩
      · exact unmoved.observers
      · exact told.observers

theorem Orderly.observers_operated (orderly : station.Orderly) {operations : List Operation}
    (silent : ∀ operation ∈ operations, operation.Silent)
    (unwatched : ∀ operation ∈ operations, ∀ name, operation ≠ .observe name) :
    (station.operated operations).observers = station.observers := by
  induction operations generalizing station with
  | nil => rfl
  | cons operation rest ih =>
      rw [List.forall_mem_cons] at silent unwatched
      exact (ih (orderly.operate silent.1) silent.2 unwatched.2).trans
        (orderly.observers_operate silent.1 unwatched.1)

/-- Channels and variables are in step after any operations, as long as no callback
writes and no bare observer comes. -/
theorem inStep_operated (protocol : Protocol) {operations : List Operation}
    (silent : ∀ operation ∈ operations, operation.Silent)
    (unwatched : ∀ operation ∈ operations, ∀ name, operation ≠ .observe name) :
    ((ofProtocol protocol).operated operations).InStep := by
  have orderly := orderly_ofProtocol protocol
  exact (orderly.operated silent).inStep (orderly.observers_operated silent unwatched)

/-- Of three variables on two channels, one is dropped: its neighbour goes on to hear of
the connection, and the third one does not. -/
theorem inStep_operated_neighbours :
    let operations : List Operation :=
      [.addVariable "speed" (.scalar .bool) {}, .addVariable "speed" (.scalar .string) {},
        .addVariable "count" (.scalar .bool) {}, .onUpdate 1 .read, .dropVariable 0,
        .setMode .hold, .drive (.connect "speed")]
    let station := (ofProtocol .structured).operated operations
    station.InStep ∧ (station.network.listeners "speed").length = 1 ∧
      (station.pv? 1).map (·.cache.state.isConnected) = some true ∧
      (station.pv? 2).map (·.cache.state.isConnected) = some false := by
  intro operations station
  have silent : ∀ operation ∈ operations, operation.Silent := by
    simp [operations, Operation.Silent, Cache.Reaction.writesLeft]
  have unwatched : ∀ operation ∈ operations, ∀ name, operation ≠ .observe name := by
    simp [operations]
  have inStep : station.InStep := inStep_operated .structured silent unwatched
  exact ⟨inStep, inStep.counted "speed", rfl, rfl⟩

end ProcessImage.Station
