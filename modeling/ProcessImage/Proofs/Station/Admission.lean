import ProcessImage.Proofs.Outcome
import ProcessImage.Proofs.Station.Echo

/-!
# Admission of variables

A new variable listens to its channel behind all others, and hears at once what
the channel remembers.  It has no callbacks yet, so nobody else hears of this.
-/

namespace ProcessImage.Station

variable {station after : Station} {name : String} {type : DataType} {settings : Settings}
  {number : Nat}

/-- The station with a new variable that listens to its channel and has heard
nothing yet. -/
def withNewcomer (station : Station) (name : String) (type : DataType)
    (settings : Settings) : Station :=
  { station with
    network :=
      { station.network.change name fun channel =>
          { channel with
            listeners :=
              channel.listeners ++ [(station.network.next, .pv station.pvs.length)] } with
        next := station.network.next + 1 }
    pvs := station.pvs ++ [some { name, type, settings, subscription := station.network.next }] }

theorem lt_length_of_pv? {pv : Variable} (isPv : station.pv? number = some pv) :
    number < station.pvs.length := by
  obtain ⟨inside, _⟩ := List.getElem?_eq_some_iff.mp (Option.join_eq_some_iff.mp isPv)
  exact inside

/-- The new variable comes last, the others stay. -/
theorem pv?_withNewcomer (station : Station) (name : String) (type : DataType) (settings : Settings)
    (number : Nat) :
    (station.withNewcomer name type settings).pv? number =
      if number = station.pvs.length then
        some { name, type, settings, subscription := station.network.next }
      else station.pv? number := by
  by_cases isLast : number = station.pvs.length
  · simp [pv?, withNewcomer, isLast]
  · simp only [if_neg isLast, pv?, withNewcomer]
    by_cases inside : number < station.pvs.length
    · rw [List.getElem?_append_left inside]
    · have beyond : station.pvs.length + 1 ≤ number := by omega
      rw [List.getElem?_eq_none (by simpa using beyond), List.getElem?_eq_none (by omega)]

theorem channel_withNewcomer (station : Station) (name : String) (type : DataType)
    (settings : Settings) (other : String) :
    (station.withNewcomer name type settings).network.channel other =
      if other = name then
        { station.network.channel name with
          listeners := (station.network.channel name).listeners ++
            [(station.network.next, .pv station.pvs.length)] }
      else station.network.channel other :=
  Network.channel_join station.network name other (.pv station.pvs.length)

theorem listeners_withNewcomer (station : Station) (name : String) (type : DataType)
    (settings : Settings) (other : String) :
    (station.withNewcomer name type settings).network.listeners other =
      if other = name then station.network.listeners name ++ [.pv station.pvs.length]
      else station.network.listeners other :=
  Network.listeners_join

theorem Tuned.withNewcomer (tuned : station.Tuned) (name : String) (type : DataType)
    (settings : Settings) : (station.withNewcomer name type settings).Tuned := by
  constructor
  case mode => exact tuned.mode
  case nodup =>
    intro other
    apply Network.nodup_listeners_join _ (tuned.nodup other)
    intro listens
    obtain ⟨pv, isPv, _⟩ := tuned.exists_pv listens
    exact Nat.lt_irrefl _ (lt_length_of_pv? isPv)
  case listens =>
    intro number pv isPv
    rw [pv?_withNewcomer] at isPv
    rw [listeners_withNewcomer]
    split at isPv
    case isTrue isLast =>
      cases isPv
      simp [isLast]
    case isFalse isOld =>
      have listens := tuned.listens isPv
      split
      case isTrue same => exact List.mem_append_left _ (same ▸ listens)
      case isFalse => exact listens
  case exists_pv =>
    intro number other listens
    have known : number = station.pvs.length ∧ other = name ∨
        .pv number ∈ station.network.listeners other := by
      rw [listeners_withNewcomer] at listens
      split at listens
      case isFalse => exact .inr listens
      case isTrue same =>
        subst same
        simpa [or_comm] using listens
    rw [pv?_withNewcomer]
    rcases known with ⟨rfl, rfl⟩ | old
    · exact ⟨_, if_pos rfl, rfl⟩
    · obtain ⟨pv, isPv, isNamed⟩ := tuned.exists_pv old
      have notLast : number ≠ station.pvs.length := Nat.ne_of_lt (lt_length_of_pv? isPv)
      exact ⟨pv, (if_neg notLast).trans isPv, isNamed⟩

/-- What a variable without writes hears by itself posts nothing. -/
theorem passage_replay (tuned : station.Tuned) {pv : Variable}
    (isPv : station.pv? number = some pv) (quiet : pv.cache.Quiet)
    (events : List Channel.Event) :
    Passage station
      (events.foldl (fun station event => station.deliver station.callbackWriter event (.pv number))
        station) [] [] fun other => if other = number then events else [] := by
  induction events generalizing station pv with
  | nil =>
      have still : Passage station station [] [] fun _ => [] := .still rfl rfl
      simpa using still
  | cons event rest ih =>
      obtain ⟨posted, delivered, silent⟩ :=
        delivery_hear (echoes_writer station.writesLeft) tuned event isPv
      rw [silent quiet] at delivered
      have single (other : Nat) : (dueTo [.pv number] event other).length ≤ 1 := by
        unfold dueTo
        split <;> simp
      have heard := delivered.passage single
      obtain ⟨cache, isNext, _, stillQuiet⟩ := heard.pv isPv
      have both := heard.trans (ih (heard.tuned tuned) isNext (stillQuiet quiet))
      have due : (fun other => dueTo [.pv number] event other ++
          if other = number then rest else []) = fun other =>
            if other = number then event :: rest else [] := by
        funext other
        by_cases same : other = number <;> simp [dueTo, same]
      rwa [due] at both

/-- A variable can be added on any named channel when its type and its settings suit
the protocol. -/
theorem exists_addVariable_iff :
    (∃ result, station.addVariable name type settings = .ok result) ↔
      Variable.validate station.network.protocol type settings = .ok () ∧ name ≠ "" := by
  unfold addVariable Network.subscribe
  cases Variable.validate station.network.protocol type settings with
  | error fault => simp
  | ok _ => by_cases unnamed : name = "" <;> simp [unnamed]

/-- A variable that is added suits the protocol, and hears what its channel
remembers. -/
theorem of_addVariable (added : station.addVariable name type settings = .ok (after, number)) :
    Variable.validate station.network.protocol type settings = .ok () ∧
      number = station.pvs.length ∧
      ∃ text, after = ((station.network.channel name).replay.foldl
        (fun station event => station.deliver station.callbackWriter event (.pv number))
        (station.withNewcomer name type settings)).leave [.debug text] := by
  obtain ⟨_, valid, subscribed⟩ := Outcome.bind_eq_ok_iff.mp added
  obtain ⟨⟨network, subscription⟩, listens, answered⟩ := Outcome.bind_eq_ok_iff.mp subscribed
  obtain ⟨_, rfl, rfl⟩ := Network.subscribe_eq_ok_iff.mp listens
  cases answered
  have remembered : ((station.network.join name (.pv station.pvs.length)).channel name).replay =
      (station.network.channel name).replay := by
    rw [Network.channel_join, if_pos rfl]
    rfl
  rw [remembered]
  exact ⟨valid, rfl, _, rfl⟩

/-- A variable that is added follows what its channel remembers. -/
theorem passage_addVariable (tuned : station.Tuned)
    (added : station.addVariable name type settings = .ok (after, number)) :
    number = station.pvs.length ∧
      Passage (station.withNewcomer name type settings) after [] []
        fun other => if other = number then (station.network.channel name).replay else [] := by
  obtain ⟨_, rfl, note, rfl⟩ := of_addVariable added
  have isPv : (station.withNewcomer name type settings).pv? station.pvs.length =
      some { name, type, settings, subscription := station.network.next } := by
    rw [pv?_withNewcomer, if_pos rfl]
  have replayed := passage_replay (tuned.withNewcomer name type settings) isPv Cache.quiet_new
    (station.network.channel name).replay
  exact ⟨rfl, replayed.record _⟩

end ProcessImage.Station
