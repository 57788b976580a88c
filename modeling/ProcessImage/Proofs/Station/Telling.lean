import ProcessImage.Proofs.Station.Operation

/-!
# What channels tell their variables

While no callback writes, an event concerns one channel only: the variables there
hear of it and follow it, and all other variables stay as they are.  A write to a
variable concerns its channel in the same way, by its echo.
-/

namespace ProcessImage

namespace Station

/-- The variables of a channel follow events there, and all others stay as they are.
No bare observer comes. -/
structure Told (before after : Station) (name : String) (events : List Channel.Event) : Prop where
  protocol : after.network.protocol = before.network.protocol
  observers : after.observers = before.observers
  pv : ∀ {number : Nat} {pv : Variable}, before.pv? number = some pv →
    ∃ cache : Cache, after.pv? number = some { pv with cache } ∧
      cache.state =
        if pv.name = name then events.foldl pv.follow pv.cache.state else pv.cache.state

variable {before middle after station : Station} {name : String} {events later : List Channel.Event}
  {number observer : Nat} {pv : Variable} {payload : Payload} {value : Value} {type : DataType}
  {settings : Settings}

/-- Where no variable moves, nobody is told anything. -/
theorem Unmoved.told (unmoved : Unmoved before after) (name : String) :
    Told before after name [] where
  protocol := unmoved.protocol
  observers := unmoved.observers
  pv {number pv} isPv := ⟨pv.cache, (unmoved.pv? number).trans isPv, (ite_self _).symm⟩

theorem Told.trans (first : Told before middle name events)
    (second : Told middle after name later) : Told before after name (events ++ later) := by
  refine ⟨second.protocol.trans first.protocol, second.observers.trans first.observers, ?_⟩
  intro number pv isPv
  obtain ⟨cache, isMiddle, state⟩ := first.pv isPv
  obtain ⟨cache', isAfter, state'⟩ := second.pv isMiddle
  refine ⟨cache', isAfter, state'.trans ?_⟩
  by_cases same : pv.name = name
  · simp only [if_pos same] at state ⊢
    rw [state, List.foldl_append]
    rfl
  · simp only [if_neg same] at state ⊢
    exact state

/-! ## Events -/

theorem Orderly.told_dispatch (orderly : station.Orderly) (name : String) (event : Channel.Event) :
    Told station (station.dispatch (writer 0) name event) name [event] := by
  have hearing := hearing_dispatch (orderly.once name) event
  have protocol := congrArg Network.protocol hearing.network
  refine ⟨protocol, hearing.observers, ?_⟩
  intro number pv isPv
  have noticed : (station.notice name event).pv? number = some pv := isPv
  obtain ⟨cache, isAfter, state, _⟩ := hearing.pv noticed
  refine ⟨cache, isAfter, state.trans ?_⟩
  rw [orderly.toSeated.dueTo_eq isPv]
  by_cases same : pv.name = name <;> simp [same]

/-- An event from outside is told to the variables of its channel. -/
theorem Orderly.told_perform (orderly : station.Orderly) {traffic : Traffic} {event : Channel.Event}
    (happens : traffic.event? = some (name, event)) :
    Told station (station.perform traffic) name [event] := by
  have writer := orderly.silent.callbackWriter
  have noted (notes : List Note) :
      Told station ((station.leave notes).dispatch (Station.writer 0) name event) name [event] := by
    have left := unmoved_leave station notes
    exact (left.told name).trans ((left.orderly orderly).told_dispatch name event)
  cases traffic with
  | connect other =>
      cases happens
      simp only [Station.perform, Station.connect, writer]
      exact noted _
  | disconnect other =>
      cases happens
      simp only [Station.perform, Station.disconnect, writer]
      exact noted _
  | clear other =>
      cases happens
      simp only [Station.perform, Station.clear, writer]
      exact orderly.told_dispatch name .cleared
  | post other update =>
      cases happens
      simp only [Station.perform, Station.post, writer]
      exact orderly.told_dispatch name (.updated update)
  | submit => cases happens
  | set => cases happens

/-! ## Echoes -/

/-- What is echoed is told to the variables of its channel. -/
theorem Orderly.told_respond (orderly : station.Orderly) (echo : station.network.mode = .echo)
    (name : String) (payload : Payload) :
    Told station (station.respond (writer 0) name payload) name [.updated { payload }] := by
  unfold Station.respond
  rw [echo]
  exact orderly.told_dispatch name (.updated { payload })

theorem Orderly.told_send (orderly : station.Orderly) (echo : station.network.mode = .echo)
    (connected : station.network.isConnected pv.name = true) (payload : Payload) :
    Told station (station.send (writer 0) pv payload).1 pv.name [.updated { payload }] := by
  have taken := unmoved_take station pv.name payload
  have echoed := (taken.told pv.name).trans
    ((taken.orderly orderly).told_respond echo pv.name payload)
  unfold Station.send
  rw [submitWith_of_isConnected connected]
  generalize (station.take pv.name payload).respond (writer 0) pv.name payload = answer at echoed
  have waited := unmoved_await answer station.network.writes.length
  dsimp only
  split
  next settled isSettled =>
    rw [isSettled] at waited
    exact echoed.trans (waited.told pv.name)
  next settled outcome _ isSettled =>
    rw [isSettled] at waited
    exact echoed.trans ((waited.trans (unmoved_leave settled _)).told pv.name)

/-- What a variable sends and the network echoes is told to all variables of the
channel, the one that wrote among them. -/
theorem Orderly.told_trySetWith (orderly : station.Orderly) (isPv : station.pv? number = some pv)
    (echo : station.network.mode = .echo)
    (sends : pv.Sends station.network.protocol value payload) :
    Told station (station.trySetWith (writer 0) number value).1 pv.name
      [.updated { payload }] := by
  have noted := unmoved_leave station (pv.encodeNotes station.network.protocol value)
  have connected : station.network.isConnected pv.name = true :=
    (orderly.knows isPv).symm.trans sends.connected
  unfold Station.trySetWith
  rw [isPv]
  dsimp only
  rw [if_pos sends.connected, sends.encode]
  exact (noted.told pv.name).trans ((noted.orderly orderly).told_send echo connected payload)

theorem Orderly.told_setWith (orderly : station.Orderly) (isPv : station.pv? number = some pv)
    (echo : station.network.mode = .echo)
    (sends : pv.Sends station.network.protocol value payload) :
    Told station (station.setWith (writer 0) number value).1 pv.name [.updated { payload }] := by
  have told := orderly.told_trySetWith isPv echo sends
  unfold Station.setWith
  generalize station.trySetWith (writer 0) number value = tried at told
  rcases tried with ⟨after, fault | done⟩
  · exact told.trans ((unmoved_leave after _).told pv.name)
  · exact told

/-- A write to a variable is told on its channel, or moves nothing. -/
theorem Orderly.exists_told_trySetWith (orderly : station.Orderly)
    (isPv : station.pv? number = some pv) (value : Value) :
    ∃ events, Told station (station.trySetWith (writer 0) number value).1 pv.name events := by
  have accounts := accounts_trySetWith orderly isPv value
  by_cases confirmed : (station.trySetWith (writer 0) number value).2 = .ok true
  · obtain ⟨echo, payload, sends⟩ := accounts.confirmed_iff.mp confirmed
    exact ⟨_, orderly.told_trySetWith isPv echo sends⟩
  · exact ⟨[], (accounts.unmoved confirmed).told pv.name⟩

theorem Orderly.exists_told_setWith (orderly : station.Orderly)
    (isPv : station.pv? number = some pv) (value : Value) :
    ∃ events, Told station (station.setWith (writer 0) number value).1 pv.name events := by
  have accounts := accounts_setWith orderly isPv value
  by_cases confirmed : (station.setWith (writer 0) number value).2 = true
  · obtain ⟨echo, payload, sends⟩ := accounts.confirmed_iff.mp confirmed
    exact ⟨_, orderly.told_setWith isPv echo sends⟩
  · exact ⟨[], (accounts.unmoved confirmed).told pv.name⟩

theorem Orderly.exists_told_submitWith (orderly : station.Orderly)
    (submitted : station.submitWith (writer 0) name payload = .ok (after, number)) :
    ∃ events, Told station after name events := by
  by_cases connected : station.network.isConnected name = true
  · rw [submitWith_of_isConnected connected] at submitted
    cases submitted
    have taken := unmoved_take station name payload
    by_cases echo : (station.take name payload).network.mode = .echo
    · exact ⟨_, (taken.told name).trans ((taken.orderly orderly).told_respond echo name payload)⟩
    · exact ⟨[], (taken.trans (unmoved_respond echo name payload)).told name⟩
  · rw [submitWith_of_not_isConnected connected] at submitted
    cases submitted

/-! ## Variables and observers -/

theorem Orderly.told_addVariable (orderly : station.Orderly)
    (added : station.addVariable name type settings = .ok (after, number)) :
    Told station after name [] := by
  obtain ⟨_, rfl, note, rfl⟩ := of_addVariable added
  have silent := orderly.silent.withNewcomer name type settings
  have heard := hearing_replay silent (.pv station.pvs.length) (station.network.channel name).replay
  have protocol := congrArg Network.protocol heard.network
  refine ⟨protocol, heard.observers, ?_⟩
  intro number pv isPv
  have notLast : number ≠ station.pvs.length := Nat.ne_of_lt (lt_length_of_pv? isPv)
  obtain ⟨cache, isAfter, state, _⟩ := heard.pv ((pv?_withNewcomer ..).trans
    ((if_neg notLast).trans isPv))
  rw [if_neg fun same => notLast (Channel.Listener.pv.inj same), List.foldl_nil] at state
  exact ⟨cache, isAfter, state.trans (ite_self _).symm⟩

/-- An observer that is added leaves the protocol and all variables. -/
theorem Orderly.kept_observe (orderly : station.Orderly)
    (added : station.observe name = .ok (after, observer)) :
    after.network.protocol = station.network.protocol ∧
      ∀ {number pv}, station.pv? number = some pv →
        ∃ cache : Cache, after.pv? number = some { pv with cache } ∧
          cache.state = pv.cache.state := by
  obtain ⟨rfl, rfl⟩ := of_observe added
  have silent : (station.withObserver name).Silent := fun _ _ isPv => orderly.silent isPv
  have heard := hearing_replay silent (.observer station.observers.length)
    (station.network.channel name).replay
  have protocol := congrArg Network.protocol heard.network
  refine ⟨protocol, fun {number pv} isPv => ?_⟩
  obtain ⟨cache, isAfter, state, _⟩ := heard.pv isPv
  exact ⟨cache, isAfter, state.trans (by rw [if_neg nofun, List.foldl_nil])⟩

theorem told_dismiss (station : Station) (observer : Nat) (name : String) :
    Told station (station.dismiss observer) name [] := by
  unfold dismiss
  cases station.observers[observer]? with
  | none => exact (Unmoved.refl station).told name
  | some entry => exact ⟨rfl, rfl, fun {_ pv} isPv => ⟨pv.cache, isPv, (ite_self _).symm⟩⟩

theorem told_setCache (isPv : station.pv? number = some pv) (cache : Cache)
    (state : cache.state = pv.cache.state) (name : String) :
    Told station (station.setCache number cache) name [] := by
  refine ⟨rfl, rfl, ?_⟩
  intro other otherPv isOther
  by_cases same : other = number
  · subst same
    obtain rfl := Option.some.inj (isPv.symm.trans isOther)
    exact ⟨cache, pv?_setCache isPv cache, state.trans (ite_self _).symm⟩
  · exact ⟨otherPv.cache, (pv?_setCache_of_ne same cache).trans isOther, (ite_self _).symm⟩

end Station

/-! ## Operations -/

/-- The channel that an operation concerns, if there is one. -/
def Operation.channel? (operation : Operation) (station : Station) : Option String :=
  match operation with
  | .drive (.connect name) | .drive (.disconnect name) | .drive (.clear name)
  | .drive (.post name _) | .drive (.submit name _) | .observe name | .addVariable name _ _ =>
      some name
  | .drive (.set number _) | .trySet number _ | .dropVariable number | .onUpdate number _
  | .removeCallback number _ => (station.pv? number).map (·.name)
  | .dismiss observer => station.observers[observer]?.map (·.1)
  | .setMode _ | .release _ | .await _ => none

namespace Station

variable {station : Station} {operation : Operation}

/-- An operation moves nothing, or tells something on the channel that it concerns, unless
it drops a variable or adds an observer. -/
theorem Orderly.told_operate (orderly : station.Orderly) (silent : operation.Silent)
    (stays : ∀ number, operation ≠ .dropVariable number)
    (unwatched : ∀ name, operation ≠ .observe name) :
    Unmoved station (station.operate operation) ∨
      ∃ name events, operation.channel? station = some name ∧
        Told station (station.operate operation) name events := by
  have writer := orderly.silent.callbackWriter
  unfold Station.operate
  cases operation with
  | drive traffic =>
      cases traffic with
      | connect name => exact .inr ⟨name, _, rfl, orderly.told_perform rfl⟩
      | disconnect name => exact .inr ⟨name, _, rfl, orderly.told_perform rfl⟩
      | clear name => exact .inr ⟨name, _, rfl, orderly.told_perform rfl⟩
      | post name update => exact .inr ⟨name, _, rfl, orderly.told_perform rfl⟩
      | submit name payload =>
          simp only [Station.perform, Station.submit, writer]
          split
          next submitted =>
            obtain ⟨events, told⟩ := orderly.exists_told_submitWith submitted
            exact .inr ⟨name, events, rfl, told⟩
          next => exact .inl (.refl station)
      | set number value =>
          simp only [Station.perform, Station.set, writer]
          cases isPv : station.pv? number with
          | none =>
              simp only [Station.setWith, Station.trySetWith, isPv]
              exact .inl (.refl station)
          | some pv =>
              obtain ⟨events, told⟩ := orderly.exists_told_setWith isPv value
              exact .inr ⟨pv.name, events, congrArg (Option.map _) isPv, told⟩
  | trySet number value =>
      simp only [Station.trySet, writer]
      cases isPv : station.pv? number with
      | none =>
          simp only [Station.trySetWith, isPv]
          exact .inl (.refl station)
      | some pv =>
          obtain ⟨events, told⟩ := orderly.exists_told_trySetWith isPv value
          exact .inr ⟨pv.name, events, congrArg (Option.map _) isPv, told⟩
  | setMode mode => exact .inl (unmoved_setMode station mode)
  | release outcome => exact .inl (unmoved_release station outcome)
  | await write => exact .inl (unmoved_await station write)
  | observe name => exact absurd rfl (unwatched name)
  | dismiss observer =>
      cases found : station.observers[observer]? with
      | none =>
          simp only [Station.dismiss, found]
          exact .inl (.refl station)
      | some entry =>
          exact .inr ⟨entry.1, [], congrArg (Option.map _) found, told_dismiss station observer _⟩
  | addVariable name type settings =>
      dsimp only
      split
      next added => exact .inr ⟨name, [], rfl, orderly.told_addVariable added⟩
      next => exact .inl (.refl station)
  | dropVariable number => exact absurd rfl (stays number)
  | onUpdate number reaction =>
      dsimp only [Station.onUpdate]
      cases isPv : station.pv? number with
      | none => exact .inl (.refl station)
      | some pv =>
          exact .inr ⟨pv.name, [], congrArg (Option.map _) isPv,
            told_setCache isPv (pv.cache.subscribe reaction).1 rfl pv.name⟩
  | removeCallback number callback =>
      dsimp only [Station.removeCallback]
      cases isPv : station.pv? number with
      | none => exact .inl (.refl station)
      | some pv =>
          exact .inr ⟨pv.name, [], congrArg (Option.map _) isPv,
            told_setCache isPv (pv.cache.unsubscribe callback).1 rfl pv.name⟩

/-- No operation changes the protocol. -/
theorem Orderly.protocol_operate (orderly : station.Orderly) (silent : operation.Silent) :
    (station.operate operation).network.protocol = station.network.protocol := by
  cases operation with
  | dropVariable number =>
      unfold Station.operate Station.dropVariable
      dsimp only
      cases station.pv? number with
      | none => rfl
      | some pv => rfl
  | observe name =>
      unfold Station.operate
      dsimp only
      split
      next added => exact (orderly.kept_observe added).1
      next => rfl
  | _ =>
      rcases orderly.told_operate silent nofun nofun with unmoved | ⟨name, events, _, told⟩
      · exact unmoved.protocol
      · exact told.protocol

theorem protocol_operated (protocol : Protocol) {operations : List Operation}
    (silent : ∀ operation ∈ operations, operation.Silent) :
    ((ofProtocol protocol).operated operations).network.protocol = protocol := by
  have orderly := orderly_ofProtocol protocol
  have isProtocol : (ofProtocol protocol).network.protocol = protocol := rfl
  generalize ofProtocol protocol = station at orderly isProtocol
  induction operations generalizing station with
  | nil => exact isProtocol
  | cons operation rest ih =>
      rw [List.forall_mem_cons] at silent
      exact ih silent.2 _ (orderly.operate silent.1)
        ((orderly.protocol_operate silent.1).trans isProtocol)

end Station

end ProcessImage
