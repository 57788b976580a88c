import ProcessImage.Proofs.Outcome
import ProcessImage.Proofs.Station.Passage

/-!
# Deliveries with echoes

Each step of a delivery is a delivery of its own, down to the writes of the
callbacks, which deliver their echoes.  The induction is on the depth of the
writes; within it, on the listeners that are left and on the callbacks that are
left.

A variable without writes posts nothing when it hears of an event.  Only the
other variables can come between a delivery and those who wait for it.
-/

namespace ProcessImage.Station

variable {station : Station} {number : Nat} {pv : Variable} {set : Writer}

/-- Whether each write is a delivery of echoes. -/
def Writer.Echoes (set : Writer) : Prop :=
  ∀ station : Station, station.Tuned → ∀ number value,
    ∃ posted, Delivery station (set number value station) posted posted fun _ => []

/-! ## Callbacks -/

/-- A call changes no state, and posts nothing unless the variable has a write left. -/
theorem delivery_call (echoes : set.Echoes) (tuned : station.Tuned) (number : Nat)
    (snapshot : Snapshot) (callback : Nat × Cache.Reaction) :
    ∃ posted, Delivery station (call set number snapshot station callback) posted posted
        (fun _ => []) ∧
      ∀ pv, station.pv? number = some pv → pv.cache.Quiet → posted = [] := by
  cases isPv : station.pv? number with
  | none =>
      refine ⟨[], ?_, fun _ _ _ => rfl⟩
      simp only [call, isPv]
      exact .of_passage (.still rfl rfl)
  | some pv =>
      have called : Passage station
          ((station.setCache number
            ((pv.cache.call Cache.keep snapshot callback).1.advance callback.1)).record
              ((pv.cache.call Cache.keep snapshot callback).2.map (.map (.callback number))))
          [] [] (fun _ => []) := by
        apply Passage.record
        simpa using Passage.setCache isPv _ (.trans (by simp) List.foldl_nil.symm)
          fun quiet => (quiet.call snapshot callback).advance callback.1
      cases planned : pv.cache.planned? callback.1 with
      | none =>
          refine ⟨[], ?_, fun _ _ _ => rfl⟩
          simp only [call, isPv, planned]
          exact .of_passage called
      | some value =>
          obtain ⟨posted, written⟩ := echoes _ (called.tuned tuned) number value
          refine ⟨posted, ?_, fun other isOther quiet => ?_⟩
          · simp only [call, isPv, planned]
            simpa using (Delivery.of_passage called).trans written fun _ _ _ _ => .inl rfl
          · obtain rfl := Option.some.inj isOther
            rw [quiet.planned?] at planned
            cases planned

theorem delivery_foldl_call (echoes : set.Echoes) (tuned : station.Tuned) (number : Nat)
    (snapshot : Snapshot) (callbacks : List (Nat × Cache.Reaction)) :
    ∃ posted, Delivery station (callbacks.foldl (call set number snapshot) station) posted posted
        (fun _ => []) ∧
      ∀ pv, station.pv? number = some pv → pv.cache.Quiet → posted = [] := by
  induction callbacks generalizing station with
  | nil => exact ⟨[], .of_passage (.still rfl rfl), fun _ _ _ => rfl⟩
  | cons callback rest ih =>
      obtain ⟨first, called, silent⟩ := delivery_call echoes tuned number snapshot callback
      obtain ⟨others, calledRest, silentRest⟩ := ih (called.tuned tuned)
      refine ⟨first ++ others, ?_, fun pv isPv quiet => ?_⟩
      · simpa using called.trans calledRest fun _ _ _ _ => .inl rfl
      · obtain ⟨heard, passage, _⟩ := called
        obtain ⟨cache, isAfter, _, stillQuiet⟩ := passage.pv isPv
        rw [silent pv isPv quiet, silentRest _ isAfter (stillQuiet quiet), List.append_nil]

/-! ## Listeners -/

/-- What is due to variables when an event is delivered to listeners. -/
def dueTo (listeners : List Channel.Listener) (event : Channel.Event) (number : Nat) :
    List Channel.Event :=
  if .pv number ∈ listeners then [event] else []

/-- A variable that hears of an event follows it before its callbacks write. -/
theorem delivery_hear (echoes : set.Echoes) (tuned : station.Tuned) (event : Channel.Event)
    (isPv : station.pv? number = some pv) :
    ∃ posted, Delivery station (station.hear set event number) posted posted
        (dueTo [.pv number] event) ∧
      (pv.cache.Quiet → posted = []) := by
  have due : dueTo [.pv number] event = fun other => if other = number then [event] else [] := by
    funext other
    simp [dueTo]
  rw [due]
  have noted : Passage station (station.leave (pv.eventNotes event)) [] [] fun _ => [] :=
    .still rfl rfl
  have isNoted : (station.leave (pv.eventNotes event)).pv? number = some pv := isPv
  cases means : pv.changeOf event with
  | error fault =>
      have follows : [event].foldl pv.follow pv.cache.state = pv.cache.state := by
        simp [Variable.follow, means]
      refine ⟨[], .of_passage ?_, fun _ => rfl⟩
      simp only [hear, isPv, means]
      exact .of_cache (network_leave _) (fun _ _ => pv?_leave _) isPv pv.cache isNoted
        follows.symm id rfl
  | ok change =>
      have follows : [event].foldl pv.follow pv.cache.state = pv.cache.state.after change := by
        simp [Variable.follow, means]
      have changed : Passage station (((station.leave (pv.eventNotes event)).setCache number
          { pv.cache with state := pv.cache.state.after change }).leave change.notes) [] []
            fun other => if other = number then [event] else [] := by
        apply Passage.record
        simpa using noted.trans (.setCache isNoted
          { pv.cache with state := pv.cache.state.after change } follows.symm id)
      obtain ⟨posted, called, silent⟩ := delivery_foldl_call echoes (changed.tuned tuned) number
        (pv.cache.state.after change).snapshot pv.cache.callbacks
      refine ⟨posted, ?_, fun quiet => ?_⟩
      · simp only [hear, isPv, means, changeCache]
        simpa using (Delivery.of_passage changed).trans called fun _ _ _ _ => .inl rfl
      · obtain ⟨cache, isChanged, _, stillQuiet⟩ := changed.pv isPv
        exact silent _ isChanged (stillQuiet quiet)

/-- A delivery to one listener.  A bare observer posts nothing. -/
theorem delivery_deliver (echoes : set.Echoes) (tuned : station.Tuned) (event : Channel.Event)
    {name : String} {listener : Channel.Listener}
    (listens : listener ∈ station.network.listeners name) :
    ∃ posted, Delivery station (station.deliver set event listener) posted posted
        (dueTo [listener] event) ∧
      ((∀ number pv, listener = .pv number → station.pv? number = some pv → pv.cache.Quiet) →
        posted = []) := by
  cases listener with
  | pv number =>
      obtain ⟨pv, isPv, _⟩ := tuned.exists_pv listens
      obtain ⟨posted, heard, silent⟩ := delivery_hear echoes tuned event isPv
      exact ⟨posted, heard, fun quiet => silent (quiet number pv rfl isPv)⟩
  | observer number =>
      refine ⟨[], .of_passage ?_, fun _ => rfl⟩
      have none : dueTo [.observer number] event = fun _ => [] := by
        funext other
        simp [dueTo]
      rw [none]
      exact .still rfl rfl

/-- A delivery to the listeners that are left, where others stand ahead of them. -/
theorem delivery_foldl_deliver (echoes : set.Echoes) (tuned : station.Tuned)
    (event : Channel.Event) {name : String} {ahead rest : List Channel.Listener}
    (listeners : station.network.listeners name = ahead ++ rest) :
    ∃ posted, Delivery station (rest.foldl (deliver set event) station) posted posted
      (dueTo rest event) := by
  induction rest generalizing station ahead with
  | nil => exact ⟨[], .of_passage (.still rfl rfl)⟩
  | cons listener rest ih =>
      have nodup := tuned.nodup name
      rw [listeners] at nodup
      have fresh : listener ∉ rest :=
        (List.nodup_cons.mp (List.nodup_append.mp nodup).2.1).1
      have listens : listener ∈ station.network.listeners name := by simp [listeners]
      obtain ⟨first, delivered, silent⟩ := delivery_deliver echoes tuned event listens
      have stillListeners : (station.deliver set event listener).network.listeners name =
          (ahead ++ [listener]) ++ rest := by
        obtain ⟨_, passage, _⟩ := delivered
        simp [passage.listeners, listeners]
      obtain ⟨others, deliveredRest⟩ := ih (delivered.tuned tuned) stillListeners
      refine ⟨first ++ others, ?_⟩
      have due : dueTo (listener :: rest) event =
          fun number => dueTo [listener] event number ++ dueTo rest event number := by
        funext number
        by_cases same : .pv number = listener
        · subst same
          simp [dueTo, fresh]
        · simp [dueTo, same]
      rw [due]
      apply delivered.trans deliveredRest
      intro number pv isPv leads
      by_cases waits : .pv number ∈ rest
      case neg => exact .inl (by simp [dueTo, waits])
      right
      -- Whoever waits and leads has only silent variables ahead.
      obtain ⟨between, behind, rfl⟩ := List.append_of_mem waits
      have onChannel : pv.name = name := by
        have listens : .pv number ∈ station.network.listeners name := by simp [listeners]
        obtain ⟨named, isNamed, rfl⟩ := tuned.exists_pv listens
        rw [Option.some.inj (isPv.symm.trans isNamed)]
      have none : first = [] := by
        apply silent
        rintro other otherPv rfl isOther
        refine leads pv (ahead ++ .pv other :: between) behind isPv ?_ other otherPv ?_ isOther
        · rw [onChannel, listeners, List.append_assoc, List.cons_append]
        · exact List.mem_append_right _ List.mem_cons_self
      rw [none, eventsOn_nil]

/-- A channel takes notice of an event before anyone hears of it. -/
theorem passage_notice (station : Station) (name : String) (event : Channel.Event) :
    Passage station { station with network := station.network.change name (·.after event) }
      [(name, event)] [] fun _ => [] := by
  constructor
  case protocol => rfl
  case mode => rfl
  case channel =>
    intro other
    rw [Network.channel_change, eventsOn_cons]
    by_cases same : name = other
    · simp [same]
    · simp [same, Ne.symm same]
  case writes => exact (List.append_nil _).symm
  case pv => exact fun {number pv} isPv => ⟨pv.cache, isPv, rfl, id⟩
  case gone => exact id
  case places => rfl

/-- An event reaches all variables of its channel, before anything that is posted
while it is delivered. -/
theorem delivery_dispatch (echoes : set.Echoes) (tuned : station.Tuned) (name : String)
    (event : Channel.Event) :
    ∃ echoed, Delivery station (station.dispatch set name event) ((name, event) :: echoed) echoed
      fun _ => [] := by
  have notice := passage_notice station name event
  obtain ⟨echoed, heard, passage, hears⟩ :=
    delivery_foldl_deliver echoes (notice.tuned tuned) event (List.nil_append _).symm
  refine ⟨echoed, _, notice.trans passage, fun number pv isPv => ?_⟩
  obtain ⟨perm, ordered⟩ := hears number pv isPv
  have due : dueTo ((station.network.change name (·.after event)).listeners name) event number ++
      eventsOn pv.name echoed = eventsOn pv.name ((name, event) :: echoed) := by
    rw [notice.listeners, eventsOn_cons]
    by_cases same : name = pv.name
    · subst same
      simp [dueTo, tuned.listens isPv]
    · have elsewhere : .pv number ∉ station.network.listeners name := by
        intro listens
        obtain ⟨other, isOther, rfl⟩ := tuned.exists_pv listens
        exact same (congrArg Variable.name (Option.some.inj (isOther.symm.trans isPv)))
      simp [dueTo, elsewhere, same]
  rw [due] at perm ordered
  exact ⟨perm, fun leads => ordered (notice.leads leads)⟩

/-! ## Writes -/

/-- A write that is taken is kept, and changes nothing else. -/
theorem passage_submit {name : String} {payload : Payload} {network : Network}
    (taken : station.network.submit name payload = .ok (network, number)) :
    Passage station { station with network } [] [(name, .updated { payload })] fun _ => [] := by
  unfold Network.submit at taken
  split at taken
  case isFalse => cases taken
  case isTrue connected =>
    cases taken
    constructor
    case writes => simp [Network.Write.echo]
    case pv => exact fun {number pv} isPv => ⟨pv.cache, isPv, rfl, id⟩
    case gone => exact id
    all_goals intros; rfl

/-- A write that is taken comes back before all that this causes. -/
theorem delivery_submitWith (echoes : set.Echoes) (tuned : station.Tuned) {name : String}
    {payload : Payload} {after : Station}
    (submitted : station.submitWith set name payload = .ok (after, number)) :
    ∃ posted, Delivery station after posted posted fun _ => [] := by
  obtain ⟨⟨network, write⟩, taken, answered⟩ := Outcome.bind_eq_ok_iff.mp submitted
  have kept := passage_submit taken
  have mode : network.mode = .echo := (kept.tuned tuned).mode
  simp only [mode] at answered
  cases answered
  obtain ⟨echoed, dispatched⟩ :=
    delivery_dispatch echoes (kept.tuned tuned) name (.updated { payload })
  exact ⟨_, (Delivery.of_passage kept).trans dispatched fun _ _ _ _ => .inl rfl⟩

/-- Whether one waits for a write does not matter to channels and variables. -/
theorem passage_await (station : Station) (write : Nat) :
    Passage station (station.await write).1 [] [] fun _ => [] := by
  cases found : station.network.writes[write]? with
  | none =>
      simp only [await, Network.await, found]
      exact .still rfl rfl
  | some taken =>
      simp only [await, Network.await, found]
      constructor
      case writes =>
        obtain ⟨inside, rfl⟩ := List.getElem?_eq_some_iff.mp found
        have inside' : write < (station.network.writes.map Network.Write.echo).length := by
          simpa using inside
        have same : station.network.writes[write].echo =
            (station.network.writes.map Network.Write.echo)[write] := by
          simp
        rw [List.map_set, List.append_nil]
        exact (congrArg _ same).trans (List.set_getElem_self inside')
      case pv => exact fun {number pv} isPv => ⟨pv.cache, isPv, rfl, id⟩
      case gone => exact id
      all_goals intros; rfl

theorem delivery_send (echoes : set.Echoes) (tuned : station.Tuned) (pv : Variable)
    (payload : Payload) :
    ∃ posted, Delivery station (station.send set pv payload).1 posted posted fun _ => [] := by
  unfold send
  cases submitted : station.submitWith set pv.name payload with
  | error fault => exact ⟨[], .of_passage (.still rfl rfl)⟩
  | ok result =>
      rcases result with ⟨taken, write⟩
      obtain ⟨posted, delivery⟩ := delivery_submitWith echoes tuned submitted
      have awaited := delivery.still (passage_await taken write)
      refine ⟨posted, ?_⟩
      dsimp only
      split
      next settled answer =>
        rw [answer] at awaited
        exact awaited
      next settled outcome answer =>
        rw [answer] at awaited
        exact awaited.still (.still rfl rfl)

theorem delivery_trySetWith (echoes : set.Echoes) (tuned : station.Tuned) (number : Nat)
    (value : Value) :
    ∃ posted, Delivery station (station.trySetWith set number value).1 posted posted
      fun _ => [] := by
  have still : Delivery station station [] [] fun _ => [] := .of_passage (.still rfl rfl)
  unfold trySetWith
  cases isPv : station.pv? number with
  | none => exact ⟨[], still⟩
  | some pv =>
      dsimp only
      split
      case isFalse => exact ⟨[], .of_passage (.still rfl rfl)⟩
      case isTrue connected =>
        split
        case h_1 => exact ⟨[], .of_passage (.still rfl rfl)⟩
        case h_2 => exact ⟨[], .of_passage (.still rfl rfl)⟩
        case h_3 payload encoded =>
          have noted : Passage station
              (station.leave (pv.encodeNotes station.network.protocol value)) [] [] fun _ => [] :=
            .still rfl rfl
          obtain ⟨posted, sent⟩ := delivery_send echoes (noted.tuned tuned) pv payload
          exact ⟨posted, sent.of_still noted⟩

/-- A write to a variable is a delivery of echoes, whatever becomes of it. -/
theorem delivery_setWith (echoes : set.Echoes) (tuned : station.Tuned) (number : Nat)
    (value : Value) :
    ∃ posted, Delivery station (station.setWith set number value).1 posted posted
      fun _ => [] := by
  obtain ⟨posted, tried⟩ := delivery_trySetWith echoes tuned number value
  refine ⟨posted, ?_⟩
  unfold setWith
  split
  next after done result => rwa [result] at tried
  next after fault result =>
    rw [result] at tried
    exact tried.still (.still rfl rfl)

/-- The writes of callbacks are deliveries of echoes at any depth. -/
theorem echoes_writer (depth : Nat) : (writer depth).Echoes := by
  induction depth with
  | zero => exact fun station _ _ _ => ⟨[], .of_passage (.still rfl rfl)⟩
  | succ depth ih => exact fun station tuned => delivery_setWith ih tuned

end ProcessImage.Station
