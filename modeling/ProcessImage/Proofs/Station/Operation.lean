import ProcessImage.Proofs.Station.Traffic
import ProcessImage.Proofs.Station.Writing

/-!
# Operations

All that can happen to a station: events on channels, writes and what becomes of
them, and that variables, their callbacks and bare observers come and go.  As long
as no callback writes, every station that is reached from a new one is orderly, so
the writes of its variables are accounted for.
-/

namespace ProcessImage

/-- What can happen to a station. -/
inductive Operation where
  | drive (traffic : Traffic)
  | trySet (number : Nat) (value : Value)
  | setMode (mode : Network.Mode)
  | release (outcome : Network.Outcome)
  | await (write : Nat)
  | observe (name : String)
  | dismiss (observer : Nat)
  | addVariable (name : String) (type : DataType) (settings : Settings)
  | dropVariable (number : Nat)
  | onUpdate (number : Nat) (reaction : Cache.Reaction)
  | removeCallback (number callback : Nat)

/-- Whether an operation registers no callback that writes. -/
def Operation.Silent : Operation → Prop
  | onUpdate _ reaction => reaction.writesLeft = 0
  | _ => True

/-- What is replayed tells whether the channel is connected. -/
theorem Channel.connected_foldl_replay (channel : Channel) :
    (channel.replay.foldl after {}).connected = channel.connected := by
  unfold replay
  cases connected : channel.connected with
  | false => rfl
  | true => cases channel.last <;> rfl

namespace Station

/-- The station after an operation.  One that is refused leaves it as it is. -/
def operate (station : Station) : Operation → Station
  | .drive traffic => station.perform traffic
  | .trySet number value => (station.trySet number value).1
  | .setMode mode => station.setMode mode
  | .release outcome => (station.release outcome).1
  | .await write => (station.await write).1
  | .observe name =>
      match station.observe name with
      | .ok (after, _) => after
      | .error _ => station
  | .dismiss observer => station.dismiss observer
  | .addVariable name type settings =>
      match station.addVariable name type settings with
      | .ok (after, _) => after
      | .error _ => station
  | .dropVariable number => station.dropVariable number
  | .onUpdate number reaction =>
      match station.onUpdate number reaction with
      | some (after, _) => after
      | none => station
  | .removeCallback number callback =>
      match station.removeCallback number callback with
      | some (after, _) => after
      | none => station

/-- The station after operations, one after the other. -/
def operated (station : Station) (operations : List Operation) : Station :=
  operations.foldl operate station

variable {station after : Station} {number observer : Nat} {pv : Variable} {name : String}
  {type : DataType} {settings : Settings}

/-! ## Events and writes -/

theorem Orderly.setWith (orderly : station.Orderly) (number : Nat) (value : Value) :
    (station.setWith (writer 0) number value).1.Orderly := by
  cases isPv : station.pv? number with
  | none =>
      unfold Station.setWith trySetWith
      rw [isPv]
      exact orderly
  | some pv => exact (accounts_setWith orderly isPv value).orderly

theorem Orderly.trySetWith (orderly : station.Orderly) (number : Nat) (value : Value) :
    (station.trySetWith (writer 0) number value).1.Orderly := by
  cases isPv : station.pv? number with
  | none =>
      unfold Station.trySetWith
      rw [isPv]
      exact orderly
  | some pv => exact (accounts_trySetWith orderly isPv value).orderly

theorem Orderly.submitWith {payload : Payload} (orderly : station.Orderly)
    (submitted : station.submitWith (writer 0) name payload = .ok (after, number)) :
    after.Orderly := by
  by_cases connected : station.network.isConnected name = true
  · rw [submitWith_of_isConnected connected] at submitted
    cases submitted
    exact ((unmoved_take station name payload).orderly orderly).respond name payload
  · rw [submitWith_of_not_isConnected connected] at submitted
    cases submitted

theorem Orderly.perform (orderly : station.Orderly) (traffic : Traffic) :
    (station.perform traffic).Orderly := by
  have writer := orderly.silent.callbackWriter
  cases traffic with
  | connect name =>
      simp only [Station.perform, connect, writer]
      exact ((unmoved_leave station _).orderly orderly).dispatch name .connected
  | disconnect name =>
      simp only [Station.perform, disconnect, writer]
      exact ((unmoved_leave station _).orderly orderly).dispatch name .disconnected
  | clear name =>
      simp only [Station.perform, clear, writer]
      exact orderly.dispatch name .cleared
  | post name update =>
      simp only [Station.perform, post, writer]
      exact orderly.dispatch name (.updated update)
  | submit name payload =>
      simp only [Station.perform, submit, writer]
      split
      next submitted => exact orderly.submitWith submitted
      next => exact orderly
  | set number value =>
      simp only [Station.perform, set, writer]
      exact orderly.setWith number value

/-! ## Variables and observers -/

/-- The callbacks of a variable may be others, as long as none writes. -/
theorem Orderly.setCache (orderly : station.Orderly) (isPv : station.pv? number = some pv)
    {cache : Cache} (state : cache.state = pv.cache.state) (quiet : pv.cache.Quiet → cache.Quiet) :
    (station.setCache number cache).Orderly := by
  have changed : Hearing station (station.setCache number cache)
      fun other => if other = number then [] else [] := .setCache isPv cache state quiet
  apply changed.orderly orderly.toSeated orderly.silent
  intro other otherPv isOther
  rw [ite_self]
  exact orderly.knows isOther

theorem Silent.withNewcomer (silent : station.Silent) (name : String) (type : DataType)
    (settings : Settings) : (station.withNewcomer name type settings).Silent := by
  intro number pv isPv
  rw [pv?_withNewcomer] at isPv
  split at isPv
  next =>
    cases isPv
    exact Cache.quiet_new
  next => exact silent isPv

/-- A variable that is added learns at once whether its channel is connected. -/
theorem Orderly.addVariable (orderly : station.Orderly)
    (added : station.addVariable name type settings = .ok (after, number)) : after.Orderly := by
  obtain ⟨valid, rfl, note, rfl⟩ := of_addVariable added
  have silent := orderly.silent.withNewcomer name type settings
  have heard := hearing_replay silent (.pv station.pvs.length) (station.network.channel name).replay
  apply (unmoved_leave _ _).orderly
  apply heard.orderly (orderly.toSeated.withNewcomer valid) silent
  intro number pv isPv
  have connection : (station.withNewcomer name type settings).network.isConnected pv.name =
      station.network.isConnected pv.name := Network.isConnected_join
  rw [connection]
  rw [pv?_withNewcomer] at isPv
  by_cases isLast : number = station.pvs.length
  · subst isLast
    rw [if_pos rfl] at isPv
    cases isPv
    rw [if_pos rfl]
    have fresh : ({} : Cache.State).isConnected = ({} : Channel).connected := rfl
    exact (Variable.isConnected_foldl_follow fresh _).trans (Channel.connected_foldl_replay _)
  · rw [if_neg isLast] at isPv
    rw [if_neg fun same => isLast (Channel.Listener.pv.inj same)]
    exact orderly.knows isPv

/-- An observer that is added only listens. -/
theorem Orderly.observe (orderly : station.Orderly)
    (added : station.observe name = .ok (after, observer)) : after.Orderly := by
  obtain ⟨rfl, rfl⟩ := of_observe added
  have silent : (station.withObserver name).Silent := fun _ _ isPv => orderly.silent isPv
  have heard := hearing_replay silent (.observer station.observers.length)
    (station.network.channel name).replay
  apply heard.orderly (orderly.toSeated.withObserver name) silent
  intro number pv isPv
  rw [if_neg nofun]
  exact (orderly.knows isPv).trans Network.isConnected_join.symm

theorem Orderly.dismiss (orderly : station.Orderly) (observer : Nat) :
    (station.dismiss observer).Orderly := by
  have seated := orderly.toSeated.dismiss observer
  unfold Station.dismiss at seated ⊢
  cases found : station.observers[observer]? with
  | none => exact orderly
  | some entry =>
      rw [found] at seated
      constructor
      case toSeated => exact seated
      case silent => exact fun _ _ isPv => orderly.silent isPv
      case knows =>
        exact fun isPv => (orderly.knows isPv).trans Network.isConnected_unsubscribe.symm

theorem Orderly.dropVariable (orderly : station.Orderly) (number : Nat) :
    (station.dropVariable number).Orderly := by
  cases dropped : station.pv? number with
  | none =>
      unfold Station.dropVariable
      rw [dropped]
      exact orderly
  | some pv =>
      have stays {other : Nat} {otherPv : Variable}
          (isOther : (station.dropVariable number).pv? other = some otherPv) :
          station.pv? other = some otherPv := by
        rw [pv?_dropVariable dropped] at isOther
        split at isOther
        next => cases isOther
        next => exact isOther
      have network : (station.dropVariable number).network =
          station.network.unsubscribe pv.name pv.subscription := by
        simp [Station.dropVariable, dropped]
      constructor
      case toSeated => exact orderly.toSeated.dropVariable number
      case silent => exact fun _ _ isOther => orderly.silent (stays isOther)
      case knows =>
        intro other otherPv isOther
        rw [network, Network.isConnected_unsubscribe]
        exact orderly.knows (stays isOther)

/-! ## Runs -/

/-- One operation keeps a station orderly, unless it registers a callback that
writes. -/
theorem Orderly.operate (orderly : station.Orderly) {operation : Operation}
    (silent : operation.Silent) : (station.operate operation).Orderly := by
  have writer := orderly.silent.callbackWriter
  unfold Station.operate
  cases operation with
  | drive traffic => exact orderly.perform traffic
  | trySet number value =>
      simp only [trySet, writer]
      exact orderly.trySetWith number value
  | setMode mode => exact (unmoved_setMode station mode).orderly orderly
  | release outcome => exact (unmoved_release station outcome).orderly orderly
  | await write => exact (unmoved_await station write).orderly orderly
  | observe name =>
      dsimp only
      split
      next added => exact orderly.observe added
      next => exact orderly
  | dismiss observer => exact orderly.dismiss observer
  | addVariable name type settings =>
      dsimp only
      split
      next added => exact orderly.addVariable added
      next => exact orderly
  | dropVariable number => exact orderly.dropVariable number
  | onUpdate number reaction =>
      dsimp only [Station.onUpdate]
      cases isPv : station.pv? number with
      | none => exact orderly
      | some pv => exact orderly.setCache isPv rfl fun quiet => quiet.subscribe silent
  | removeCallback number callback =>
      dsimp only [Station.removeCallback]
      cases isPv : station.pv? number with
      | none => exact orderly
      | some pv => exact orderly.setCache isPv rfl fun quiet => quiet.unsubscribe callback

/-- Operations keep a station orderly. -/
theorem Orderly.operated (orderly : station.Orderly) {operations : List Operation}
    (silent : ∀ operation ∈ operations, operation.Silent) :
    (station.operated operations).Orderly := by
  induction operations generalizing station with
  | nil => exact orderly
  | cons operation rest ih =>
      rw [List.forall_mem_cons] at silent
      exact ih (orderly.operate silent.1) silent.2

/-- At every station that is reached while no callback writes, a value written to a
variable is accounted for.  The network never refuses what a connected variable
sends.  Only on the structured protocol can a value fail to be sent at all.  A write
that is not confirmed changes no variable and no channel, and neither does any later
release.  As operations do not overlap, nothing is released while a write is waited
for. -/
theorem accounts_operated (protocol : Protocol) {operations : List Operation}
    (silent : ∀ operation ∈ operations, operation.Silent)
    (isPv : ((ofProtocol protocol).operated operations).pv? number = some pv) (value : Value) :
    let before := (ofProtocol protocol).operated operations
    let tried := before.trySet number value
    let done := before.set number value
    Accounts before tried.1 pv value (tried.2 = .ok true) ∧
    Accounts before done.1 pv value (done.2 = true) ∧
    (pv.cache.state.isConnected = true →
      ∀ payload, ∃ taken, before.network.submit pv.name payload = .ok taken) ∧
    (∀ fault, tried.2 = .error fault ↔
      pv.cache.state.isConnected = true ∧ before.network.protocol = .structured ∧
        (pv.converted value = .error fault ∨
          ∃ converted, pv.converted value = .ok converted ∧
            Wire.Tree.ofValue converted = .error fault)) ∧
    ∀ after ∈ [tried.1, done.1], ∀ later outcome,
      Unmoved (after.operated later) ((after.operated later).release outcome).1 := by
  intro before tried done
  have orderly : before.Orderly := (orderly_ofProtocol protocol).operated silent
  have writer : before.callbackWriter = writer 0 := orderly.silent.callbackWriter
  have triedWith : tried = before.trySetWith (Station.writer 0) number value := by
    rw [← writer]
    rfl
  have doneWith : done = before.setWith (Station.writer 0) number value := by
    rw [← writer]
    rfl
  rw [triedWith, doneWith]
  refine ⟨accounts_trySetWith orderly isPv value, accounts_setWith orderly isPv value, ?_, ?_, ?_⟩
  · intro connected payload
    rw [orderly.knows isPv] at connected
    exact ⟨_, if_pos connected⟩
  · intro fault
    rw [trySetWith_eq_error_iff isPv, Variable.encode_eq_error_iff (orderly.valid isPv)]
  · exact fun after _ later outcome => unmoved_release (after.operated later) outcome

/-- While writes are held, a value for a connected variable is taken and changes
nothing. -/
theorem accounts_operated_held :
    let five : Value := .scalar (.integer .int32 5 (by decide))
    let operations : List Operation :=
      [.addVariable "count" five.typeOf {}, .onUpdate 0 .read, .drive (.connect "count"),
        .setMode .hold]
    let before := (ofProtocol .structured).operated operations
    ∃ pv payload, before.pv? 0 = some pv ∧ pv.Sends .structured five payload ∧
      (before.set 0 five).1.log = [("count", payload)] ∧ (before.set 0 five).2 = false ∧
      Unmoved before (before.set 0 five).1 := by
  intro five operations before
  have silent : ∀ operation ∈ operations, operation.Silent := by
    simp [operations, Operation.Silent, Cache.Reaction.writesLeft]
  obtain ⟨pv, isPv, isNamed, payload, sends⟩ : ∃ pv, before.pv? 0 = some pv ∧ pv.name = "count" ∧
      ∃ payload, pv.Sends .structured five payload := ⟨_, rfl, rfl, _, rfl, rfl⟩
  obtain ⟨_, accounts, _⟩ := accounts_operated .structured silent isPv five
  have holds : before.network.mode = .hold := rfl
  have unconfirmed : ¬ (before.set 0 five).2 = true := by
    rw [accounts.confirmed_iff, holds]
    simp
  have log := accounts.sent sends
  rw [isNamed] at log
  exact ⟨pv, payload, isPv, sends, log, Bool.eq_false_iff.mpr unconfirmed,
    accounts.unmoved unconfirmed⟩

end Station

end ProcessImage
