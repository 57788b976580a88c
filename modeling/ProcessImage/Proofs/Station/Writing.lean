import ProcessImage.Proofs.Station.Order

/-!
# Writes of variables

A write of a variable that is connected is always taken, as its channel is
connected as well.  It stands in the log of the network from then on.  Only an echo
does more than that: it is delivered at once and it alone is confirmed.
-/

namespace ProcessImage

namespace Variable

variable {pv : Variable} {protocol : Protocol} {value : Value} {payload other : Payload}
  {fault : Fault}

/-- Whether a variable sends a payload for a value: it is connected, and this is
what the value is sent as. -/
structure Sends (pv : Variable) (protocol : Protocol) (value : Value) (payload : Payload) :
    Prop where
  connected : pv.cache.state.isConnected = true
  encode : pv.encode protocol value = .ok (some payload)

theorem Sends.unique (sends : pv.Sends protocol value payload)
    (sendsOther : pv.Sends protocol value other) : payload = other :=
  Option.some.inj (Except.ok.inj (sends.encode.symm.trans sendsOther.encode))

/-- A variable of the legacy protocol has a type with a tag, so there is always a
record to write, which may be empty. -/
theorem exists_write (valid : validate .legacy pv.type pv.settings = .ok ()) (value : Value) :
    ∃ record, pv.settings.layout.write pv.type value = .ok record := by
  obtain ⟨tag, isTag⟩ : ∃ tag, Legacy.tagOfType pv.type = .ok tag := by
    obtain ⟨_, _, tagged⟩ := Outcome.bind_eq_ok_iff.mp valid
    obtain ⟨tag, isTag, _⟩ := Outcome.map_eq_ok_iff.mp tagged
    exact ⟨tag, isTag⟩
  unfold Legacy.Layout.write
  rw [isTag]
  simp only [Outcome.ok_bind]
  split
  next => exact ⟨_, rfl⟩
  next => split <;> exact ⟨_, rfl⟩

/-- A value that cannot be sent on the structured protocol does not convert to the type
of the variable, or no tree carries it. -/
theorem encode_structured_eq_error_iff :
    pv.encode .structured value = .error fault ↔
      pv.converted value = .error fault ∨
        ∃ converted, pv.converted value = .ok converted ∧
          Wire.Tree.ofValue converted = .error fault := by
  rw [encode, Outcome.bind_eq_error_iff]
  simp [Outcome.bind_eq_error_iff]

/-- A value can only be refused on the structured protocol. -/
theorem encode_eq_error_iff (valid : validate protocol pv.type pv.settings = .ok ()) :
    pv.encode protocol value = .error fault ↔
      protocol = .structured ∧
        (pv.converted value = .error fault ∨
          ∃ converted, pv.converted value = .ok converted ∧
            Wire.Tree.ofValue converted = .error fault) := by
  cases protocol with
  | legacy =>
      obtain ⟨record, isRecord⟩ := exists_write valid value
      simp [encode, isRecord]
  | structured => rw [and_iff_right rfl, encode_structured_eq_error_iff]

end Variable

/-- A write is confirmed at once when it is echoed. -/
theorem Network.Mode.outcome_progress_eq_success_iff {mode : Mode} :
    mode.progress.outcome = .success ↔ mode = .echo := by
  cases mode <;> simp [progress, Progress.outcome]

namespace Station

variable {station before middle after : Station} {number : Nat} {pv : Variable} {name : String}
  {payload : Payload}

/-! ## The log -/

/-- The channels and payloads of the writes that the network took. -/
def log (station : Station) : List (String × Payload) :=
  station.network.writes.map fun write => (write.channel, write.payload)

theorem log_await (station : Station) (write : Nat) :
    (station.await write).1.log = station.log := by
  cases found : station.network.writes[write]? with
  | none => simp [log, await, Network.await, found]
  | some taken =>
      obtain ⟨inside, rfl⟩ := List.getElem?_eq_some_iff.mp found
      simp only [log, await, Network.await, found]
      apply List.ext_getElem (by simp)
      intro index _ _
      by_cases same : index = write
      · subst same
        simp
      · simp [Ne.symm same]

/-- A delivery without writes causes none. -/
theorem writes_dispatch (nodup : (station.network.listeners name).Nodup) (event : Channel.Event) :
    (station.dispatch (writer 0) name event).network.writes = station.network.writes := by
  rw [(hearing_dispatch nodup event).network]
  rfl

/-! ## Taking a write -/

/-- The station once the network has taken a write. -/
def take (station : Station) (name : String) (payload : Payload) : Station :=
  { station with
    network := { station.network with
      writes := station.network.writes ++ [⟨name, payload, station.network.mode.progress⟩] } }

theorem unmoved_take (station : Station) (name : String) (payload : Payload) :
    Unmoved station (station.take name payload) :=
  ⟨rfl, rfl, rfl, rfl, rfl⟩

theorem log_take (station : Station) (name : String) (payload : Payload) :
    (station.take name payload).log = station.log ++ [(name, payload)] := by
  simp [log, take]

/-- What the network does at once about a write that it has taken. -/
def respond (set : Writer) (name : String) (payload : Payload) (station : Station) : Station :=
  match station.network.mode with
  | .echo => station.dispatch set name (.updated { payload })
  | .hold => station
  | .reject => station.leave [.warn ("[loopback] write to " ++ name ++ " rejected")]

theorem Orderly.respond (orderly : station.Orderly) (name : String) (payload : Payload) :
    (station.respond (writer 0) name payload).Orderly := by
  unfold Station.respond
  cases station.network.mode with
  | echo => exact orderly.dispatch name (.updated { payload })
  | hold => exact orderly
  | reject => exact (unmoved_leave station _).orderly orderly

theorem unmoved_respond (noEcho : station.network.mode ≠ .echo) (name : String)
    (payload : Payload) : Unmoved station (station.respond (writer 0) name payload) := by
  unfold respond
  cases mode : station.network.mode with
  | echo => exact absurd mode noEcho
  | hold => exact .refl station
  | reject => exact unmoved_leave station _

theorem writes_respond (nodup : (station.network.listeners name).Nodup) (payload : Payload) :
    (station.respond (writer 0) name payload).network.writes = station.network.writes := by
  unfold respond
  cases station.network.mode with
  | echo => exact writes_dispatch nodup (.updated { payload })
  | hold => rfl
  | reject => rfl

/-- A write to a connected channel is taken and answered. -/
theorem submitWith_of_isConnected {set : Writer}
    (connected : station.network.isConnected name = true) :
    station.submitWith set name payload =
      .ok ((station.take name payload).respond set name payload,
        station.network.writes.length) := by
  unfold submitWith respond Network.submit
  rw [if_pos connected]
  simp only [Outcome.ok_bind, take]
  cases station.network.mode <;> rfl

/-- A write to a channel that is not connected is refused. -/
theorem submitWith_of_not_isConnected {set : Writer}
    (connected : ¬ station.network.isConnected name = true) :
    station.submitWith set name payload = .error (.notConnected name) := by
  unfold submitWith Network.submit
  rw [if_neg connected]
  rfl

/-! ## Sending -/

/-- A write that was taken stands in the log.  It is confirmed when the network
echoes, and moves nothing otherwise. -/
structure Written (before after : Station) (entry : String × Payload) (confirmed : Bool) :
    Prop where
  orderly : after.Orderly
  log : after.log = before.log ++ [entry]
  confirmed_iff : confirmed = true ↔ before.network.mode = .echo
  unmoved : before.network.mode ≠ .echo → Unmoved before after

theorem Written.of_leave {notes : List Note} {entry : String × Payload} {confirmed : Bool}
    (written : Written (before.leave notes) after entry confirmed) :
    Written before after entry confirmed where
  orderly := written.orderly
  log := written.log
  confirmed_iff := written.confirmed_iff
  unmoved noEcho := (unmoved_leave before notes).trans (written.unmoved noEcho)

/-- A variable whose channel is connected sends without refusal. -/
theorem written_send (orderly : station.Orderly)
    (connected : station.network.isConnected pv.name = true) (payload : Payload) :
    Written station (station.send (writer 0) pv payload).1 (pv.name, payload)
      (station.send (writer 0) pv payload).2 := by
  have taken := (unmoved_take station pv.name payload).orderly orderly
  have answered := taken.respond pv.name payload
  have writes := writes_respond (taken.once pv.name) payload
  have still (noEcho : (station.take pv.name payload).network.mode ≠ .echo) :=
    (unmoved_take station pv.name payload).trans (unmoved_respond noEcho pv.name payload)
  unfold send
  rw [submitWith_of_isConnected connected]
  generalize (station.take pv.name payload).respond (writer 0) pv.name payload = answer
    at answered writes still
  have waited := unmoved_await answer station.network.writes.length
  have log : (answer.await station.network.writes.length).1.log =
      station.log ++ [(pv.name, payload)] := by
    rw [log_await, ← log_take]
    exact congrArg (List.map _) writes
  have outcome : (answer.await station.network.writes.length).2 =
      station.network.mode.progress.outcome := by
    simp [await, Network.await, writes, take]
  dsimp only
  generalize answer.await station.network.writes.length = awaited at waited log outcome
  rcases awaited with ⟨settled, result⟩
  dsimp only at waited log outcome
  have echoed_iff : result = .success ↔ station.network.mode = .echo := by
    rw [outcome]
    exact Network.Mode.outcome_progress_eq_success_iff
  have refused (noSuccess : result ≠ .success) (notes : List Note) :
      Written station (settled.leave notes) (pv.name, payload) false := by
    have noEcho := mt echoed_iff.mpr noSuccess
    have left := waited.trans (unmoved_leave settled notes)
    constructor
    case orderly => exact left.orderly answered
    case log => exact log
    case confirmed_iff => exact iff_of_false Bool.false_ne_true noEcho
    case unmoved => exact fun noEcho => (still noEcho).trans left
  cases result with
  | success =>
      have echo := echoed_iff.mp rfl
      exact ⟨waited.orderly answered, log, iff_of_true rfl echo, fun noEcho => absurd echo noEcho⟩
  | timeout => exact refused (by decide) _
  | interrupted => exact refused (by decide) _

/-! ## Values -/

/-- The books after a value was written to a variable.  What the variable sends is
added to the log, and nothing else is.  The write is confirmed when something was
sent and echoed, and beyond the log it moves something only then. -/
structure Accounts (before after : Station) (pv : Variable) (value : Value) (confirmed : Prop) :
    Prop where
  orderly : after.Orderly
  sent : ∀ {payload}, pv.Sends before.network.protocol value payload →
    after.log = before.log ++ [(pv.name, payload)]
  unsent : (∀ payload, ¬ pv.Sends before.network.protocol value payload) → after.log = before.log
  confirmed_iff : confirmed ↔
    before.network.mode = .echo ∧ ∃ payload, pv.Sends before.network.protocol value payload
  unmoved : ¬ confirmed → Unmoved before after

variable {value : Value} {confirmed : Prop} {fault : Fault}

/-- Where nothing is sent, notes are all that is left. -/
theorem Orderly.accounts_leave (orderly : before.Orderly)
    (nothing : ∀ payload, ¬ pv.Sends before.network.protocol value payload)
    (unconfirmed : ¬ confirmed) (notes : List Note) :
    Accounts before (before.leave notes) pv value confirmed where
  orderly := (unmoved_leave before notes).orderly orderly
  sent sends := absurd sends (nothing _)
  unsent _ := rfl
  confirmed_iff := iff_of_false unconfirmed fun ⟨_, _, sends⟩ => nothing _ sends
  unmoved _ := unmoved_leave before notes

/-- The one payload that is sent is the one that was written. -/
theorem Written.accounts {done : Bool} (written : Written before after (pv.name, payload) done)
    (sends : pv.Sends before.network.protocol value payload)
    (confirmed_iff : confirmed ↔ done = true) : Accounts before after pv value confirmed where
  orderly := written.orderly
  sent {other} alsoSends := by
    rw [written.log, sends.unique alsoSends]
  unsent nothing := absurd sends (nothing payload)
  confirmed_iff := by
    rw [confirmed_iff, written.confirmed_iff]
    exact (and_iff_left ⟨payload, sends⟩).symm
  unmoved unconfirmed := by
    apply written.unmoved
    rwa [confirmed_iff, written.confirmed_iff] at unconfirmed

/-- A value for a connected variable is sent, if there is a payload for it. -/
theorem accounts_trySetWith (orderly : station.Orderly) (isPv : station.pv? number = some pv)
    (value : Value) :
    Accounts station (station.trySetWith (writer 0) number value).1 pv value
      ((station.trySetWith (writer 0) number value).2 = .ok true) := by
  unfold trySetWith
  rw [isPv]
  dsimp only
  by_cases connected : pv.cache.state.isConnected = true
  · rw [if_pos connected]
    have noPayload
        (other : ∀ payload, pv.encode station.network.protocol value ≠ .ok (some payload))
        (payload : Payload) : ¬ pv.Sends station.network.protocol value payload :=
      fun sends => other payload sends.encode
    cases encoded : pv.encode station.network.protocol value with
    | error fault => exact orderly.accounts_leave (noPayload (by simp [encoded])) nofun _
    | ok payload =>
        cases payload with
        | none => exact orderly.accounts_leave (noPayload (by simp [encoded])) nofun _
        | some payload =>
            have noted := unmoved_leave station (pv.encodeNotes station.network.protocol value)
            have written := written_send (noted.orderly orderly)
              ((orderly.knows isPv).symm.trans connected) payload
            exact written.of_leave.accounts ⟨connected, encoded⟩ (by simp)
  · rw [if_neg connected]
    exact orderly.accounts_leave (fun _ sends => connected sends.connected) nofun _

/-- What cannot be sent at all is a fault only where it would have been sent. -/
theorem trySetWith_eq_error_iff {set : Writer} (isPv : station.pv? number = some pv) :
    (station.trySetWith set number value).2 = .error fault ↔
      pv.cache.state.isConnected = true ∧
        pv.encode station.network.protocol value = .error fault := by
  unfold trySetWith
  rw [isPv]
  dsimp only
  by_cases connected : pv.cache.state.isConnected = true
  · rw [if_pos connected, and_iff_right connected]
    cases pv.encode station.network.protocol value with
    | error fault => simp
    | ok payload => cases payload <;> simp
  · simp [connected]

/-- Another way to tell of the confirmation, and notes beside the write, do not
count. -/
theorem Accounts.leave {told : Prop} (accounts : Accounts before after pv value confirmed)
    (same : told ↔ confirmed) (notes : List Note) :
    Accounts before (after.leave notes) pv value told where
  orderly := (unmoved_leave after notes).orderly accounts.orderly
  sent := accounts.sent
  unsent := accounts.unsent
  confirmed_iff := same.trans accounts.confirmed_iff
  unmoved refused := (accounts.unmoved (mt same.mpr refused)).trans (unmoved_leave after notes)

/-- A fault counts as not confirmed. -/
theorem accounts_setWith (orderly : station.Orderly) (isPv : station.pv? number = some pv)
    (value : Value) :
    Accounts station (station.setWith (writer 0) number value).1 pv value
      ((station.setWith (writer 0) number value).2 = true) := by
  have accounts := accounts_trySetWith orderly isPv value
  unfold setWith
  generalize station.trySetWith (writer 0) number value = tried at accounts
  rcases tried with ⟨after, fault | done⟩
  · exact accounts.leave (by simp) _
  · simpa using accounts

end Station

end ProcessImage
