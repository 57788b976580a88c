import ProcessImage.Proofs.Cache.Spending
import ProcessImage.Proofs.Station.Echo

/-!
# Hearing without writing

Where no callback has a write left, nothing happens to the network while an event
is delivered: each variable that listens follows the event, and all others stay as
they are.  `Hearing` says what a delivery leaves then, in any mode of the network.
-/

namespace ProcessImage

/-- A cache without writing callbacks has no write left. -/
theorem Cache.Quiet.writesLeft {cache : Cache} (quiet : cache.Quiet) : cache.writesLeft = 0 := by
  rw [writesLeft_eq_sum]
  apply List.sum_eq_zero
  intro count inside
  obtain ⟨callback, isCallback, rfl⟩ := List.mem_map.mp inside
  exact quiet callback isCallback

namespace Station

/-! ## Silent stations -/

/-- Whether no variable has a write left. -/
def Silent (station : Station) : Prop :=
  ∀ ⦃number : Nat⦄ ⦃pv : Variable⦄, station.pv? number = some pv → pv.cache.Quiet

variable {before middle after station : Station} {number : Nat} {pv : Variable}
  {heard heard' : Nat → List Channel.Event}

theorem exists_number_of_mem {pv : Variable} (inside : some pv ∈ station.pvs) :
    ∃ number, station.pv? number = some pv := by
  obtain ⟨number, found⟩ := List.getElem?_of_mem inside
  exact ⟨number, by simp [pv?, found]⟩

/-- Nobody writes at a silent station. -/
theorem Silent.callbackWriter (silent : station.Silent) : station.callbackWriter = writer 0 := by
  have none : station.writesLeft = 0 := by
    have each : ∀ pv ∈ station.pvs, (pv.map (·.cache.writesLeft)).getD 0 = 0 := by
      intro place inside
      cases place with
      | none => rfl
      | some pv =>
          obtain ⟨number, isPv⟩ := exists_number_of_mem inside
          exact (silent isPv).writesLeft
    unfold Station.writesLeft
    generalize station.pvs = pvs at each
    induction pvs with
    | nil => rfl
    | cons first rest ih =>
        rw [List.forall_mem_cons] at each
        rw [List.foldr_cons, each.1, ih each.2]
  rw [Station.callbackWriter, none]

/-! ## Hearing -/

/-- Variables hear of events while the network and the observers stay as they are,
and no callback gets a write to make. -/
structure Hearing (before after : Station) (heard : Nat → List Channel.Event) : Prop where
  network : after.network = before.network
  observers : after.observers = before.observers
  pv : ∀ {number : Nat} {pv : Variable}, before.pv? number = some pv →
    ∃ cache : Cache, after.pv? number = some { pv with cache } ∧
      cache.state = (heard number).foldl pv.follow pv.cache.state ∧
      (pv.cache.Quiet → cache.Quiet)
  gone : ∀ {number : Nat}, before.pv? number = none → after.pv? number = none
  places : after.pvs.length = before.pvs.length

/-- What means nothing to those who hear it leaves all but the history. -/
theorem Hearing.unchanged (network : after.network = before.network)
    (observers : after.observers = before.observers) (pvs : after.pvs = before.pvs)
    (means : ∀ {number : Nat} {pv : Variable}, before.pv? number = some pv →
      (heard number).foldl pv.follow pv.cache.state = pv.cache.state) :
    Hearing before after heard := by
  have same (number : Nat) : after.pv? number = before.pv? number := by simp [pv?, pvs]
  constructor
  case network => exact network
  case observers => exact observers
  case pv =>
    intro number pv isPv
    exact ⟨pv.cache, (same number).trans isPv, (means isPv).symm, id⟩
  case gone =>
    intro number none
    exact (same number).trans none
  case places => rw [pvs]

/-- Nobody hears anything where only the history differs. -/
theorem Hearing.still (network : after.network = before.network)
    (observers : after.observers = before.observers) (pvs : after.pvs = before.pvs) :
    Hearing before after fun _ => [] :=
  .unchanged network observers pvs fun _ => rfl

theorem Hearing.trans (first : Hearing before middle heard)
    (second : Hearing middle after heard') :
    Hearing before after fun number => heard number ++ heard' number := by
  constructor
  case network => rw [second.network, first.network]
  case observers => rw [second.observers, first.observers]
  case pv =>
    intro number pv isPv
    obtain ⟨cache, isMiddle, state, quiet⟩ := first.pv isPv
    obtain ⟨cache', isAfter, state', quiet'⟩ := second.pv isMiddle
    refine ⟨cache', isAfter, ?_, fun isQuiet => quiet' (quiet isQuiet)⟩
    rw [List.foldl_append, ← state]
    exact state'
  case gone => exact fun none => second.gone (first.gone none)
  case places => rw [second.places, first.places]

theorem Hearing.record (hearing : Hearing before after heard)
    (entries : List (Entry Station.Event)) : Hearing before (after.record entries) heard := by
  have still : Hearing after (after.record entries) fun _ => [] := .still rfl rfl rfl
  simpa using hearing.trans still

/-- Another cache for one variable is all that hearing changes. -/
theorem Hearing.setCache (isPv : station.pv? number = some pv) (cache : Cache)
    {events : List Channel.Event} (state : cache.state = events.foldl pv.follow pv.cache.state)
    (quiet : pv.cache.Quiet → cache.Quiet) :
    Hearing station (station.setCache number cache)
      fun other => if other = number then events else [] := by
  constructor
  case network => rfl
  case observers => rfl
  case pv =>
    intro other otherPv isOther
    by_cases same : other = number
    · subst same
      obtain rfl := Option.some.inj (isPv.symm.trans isOther)
      exact ⟨cache, pv?_setCache isPv cache, by simp [state], quiet⟩
    · exact ⟨otherPv.cache, (pv?_setCache_of_ne same cache).trans isOther, by simp [same], id⟩
  case gone =>
    intro other none
    have ne : other ≠ number := by
      rintro rfl
      rw [none] at isPv
      cases isPv
    exact (pv?_setCache_of_ne ne cache).trans none
  case places => exact length_setCache ..

theorem Hearing.silent (hearing : Hearing before after heard) (silent : before.Silent) :
    after.Silent := by
  intro number pv isPv
  cases wasPv : before.pv? number with
  | none =>
      rw [hearing.gone wasPv] at isPv
      cases isPv
  | some old =>
      obtain ⟨cache, isAfter, _, quiet⟩ := hearing.pv wasPv
      obtain rfl := Option.some.inj (isAfter.symm.trans isPv)
      exact quiet (silent wasPv)

/-! ## Deliveries without writes -/

/-- A call changes no state when its writes lead nowhere. -/
theorem hearing_call (number : Nat) (snapshot : Snapshot) (station : Station)
    (callback : Nat × Cache.Reaction) :
    Hearing station (call (writer 0) number snapshot station callback) fun _ => [] := by
  unfold call
  cases isPv : station.pv? number with
  | none => exact .still rfl rfl rfl
  | some pv =>
      have called : Hearing station
          ((station.setCache number
            ((pv.cache.call Cache.keep snapshot callback).1.advance callback.1)).record
              ((pv.cache.call Cache.keep snapshot callback).2.map (.map (.callback number))))
          fun _ => [] := by
        apply Hearing.record
        simpa using Hearing.setCache isPv _ (.trans (by simp) List.foldl_nil.symm)
          fun quiet => (quiet.call snapshot callback).advance callback.1
      dsimp only
      split <;> exact called

theorem hearing_foldl_call (number : Nat) (snapshot : Snapshot)
    (callbacks : List (Nat × Cache.Reaction)) (station : Station) :
    Hearing station (callbacks.foldl (call (writer 0) number snapshot) station) fun _ => [] := by
  induction callbacks generalizing station with
  | nil => exact .still rfl rfl rfl
  | cons callback rest ih => exact (hearing_call number snapshot station callback).trans (ih _)

/-- A variable follows what it hears. -/
theorem hearing_hear (event : Channel.Event) (station : Station) (number : Nat) :
    Hearing station (station.hear (writer 0) event number) (dueTo [.pv number] event) := by
  have due : dueTo [.pv number] event = fun other => if other = number then [event] else [] := by
    funext other
    simp [dueTo]
  rw [due]
  unfold hear
  cases isPv : station.pv? number with
  | none =>
      apply Hearing.unchanged rfl rfl rfl
      intro other otherPv isOther
      have ne : other ≠ number := by
        rintro rfl
        rw [isPv] at isOther
        cases isOther
      rw [if_neg ne]
      rfl
  | some pv =>
      dsimp only
      cases means : pv.changeOf event with
      | error fault =>
          have follows : pv.follow pv.cache.state event = pv.cache.state := by
            simp [Variable.follow, means]
          apply Hearing.unchanged
          case network => rfl
          case observers => rfl
          case pvs => rfl
          case means =>
            intro other otherPv isOther
            by_cases same : other = number
            · subst same
              obtain rfl := Option.some.inj (isPv.symm.trans isOther)
              rw [if_pos rfl]
              exact follows
            · rw [if_neg same]
              rfl
      | ok change =>
          have noted : Hearing station (station.leave (pv.eventNotes event)) fun _ => [] :=
            .still rfl rfl rfl
          have isNoted : (station.leave (pv.eventNotes event)).pv? number = some pv := isPv
          have follows : pv.cache.state.after change = [event].foldl pv.follow pv.cache.state := by
            simp [Variable.follow, means]
          have changed := noted.trans ((Hearing.setCache isNoted
            { pv.cache with state := pv.cache.state.after change } follows id).record
              (change.notes.map .note))
          simpa [changeCache, leave] using changed.trans (hearing_foldl_call number
            (pv.cache.state.after change).snapshot pv.cache.callbacks _)

/-- A bare observer only keeps what it hears. -/
theorem hearing_deliver (event : Channel.Event) (station : Station) (listener : Channel.Listener) :
    Hearing station (station.deliver (writer 0) event listener) (dueTo [listener] event) := by
  cases listener with
  | pv number => exact hearing_hear event station number
  | observer number =>
      have none : dueTo [.observer number] event = fun _ => [] := by
        funext other
        simp [dueTo]
      rw [none]
      exact .still rfl rfl rfl

/-- Each of different listeners hears an event once. -/
theorem hearing_foldl_deliver (event : Channel.Event) {listeners : List Channel.Listener}
    (nodup : listeners.Nodup) (station : Station) :
    Hearing station (listeners.foldl (deliver (writer 0) event) station)
      (dueTo listeners event) := by
  induction listeners generalizing station with
  | nil => exact .still rfl rfl rfl
  | cons listener rest ih =>
      rw [List.nodup_cons] at nodup
      have due : dueTo (listener :: rest) event =
          fun number => dueTo [listener] event number ++ dueTo rest event number := by
        funext number
        by_cases same : .pv number = listener
        · subst same
          simp [dueTo, nodup.1]
        · simp [dueTo, same]
      rw [due]
      exact (hearing_deliver event station listener).trans (ih nodup.2 _)

/-- The station once a channel has taken notice of an event and before anyone
hears of it. -/
def notice (station : Station) (name : String) (event : Channel.Event) : Station :=
  { station with network := station.network.change name (·.after event) }

theorem listeners_notice (station : Station) (name : String) (event : Channel.Event)
    (other : String) :
    ((station.notice name event).network.channel other).listeners =
      (station.network.channel other).listeners := by
  unfold notice
  rw [Network.channel_change]
  split
  next same =>
    subst same
    cases event <;> rfl
  next => rfl

/-- Those who listen to a channel hear of an event there once. -/
theorem hearing_dispatch {name : String} (nodup : (station.network.listeners name).Nodup)
    (event : Channel.Event) :
    Hearing (station.notice name event) (station.dispatch (writer 0) name event)
      (dueTo (station.network.listeners name) event) := by
  have same : (station.notice name event).network.listeners name =
      station.network.listeners name := by
    unfold Network.listeners
    rw [listeners_notice]
  have heard := hearing_foldl_deliver event (same ▸ nodup) (station.notice name event)
  rw [same] at heard
  unfold dispatch
  change Hearing _ (((station.notice name event).network.listeners name).foldl _
    (station.notice name event)) _
  rw [same]
  exact heard

/-- What a listener hears by itself, one event after the other. -/
theorem hearing_replay (silent : station.Silent) (listener : Channel.Listener)
    (events : List Channel.Event) :
    Hearing station
      (events.foldl
        (fun station event => station.deliver station.callbackWriter event listener) station)
      fun number => if .pv number = listener then events else [] := by
  induction events generalizing station with
  | nil =>
      have still : Hearing station station fun _ => [] := .still rfl rfl rfl
      simpa using still
  | cons event rest ih =>
      have first := hearing_deliver event station listener
      rw [← silent.callbackWriter] at first
      have both := first.trans (ih (first.silent silent))
      have due : (fun number => dueTo [listener] event number ++
          if .pv number = listener then rest else []) = fun number =>
            if .pv number = listener then event :: rest else [] := by
        funext number
        by_cases same : .pv number = listener <;> simp [dueTo, same]
      rwa [due] at both

end Station

end ProcessImage
