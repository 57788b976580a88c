import ProcessImage.Proofs.Cache.Quiet
import ProcessImage.Proofs.Legacy.Reading
import ProcessImage.Proofs.Station.Operation

/-!
# Typed variables of the legacy protocol

On the legacy protocol every payload can be decoded, whatever its bytes, and always to
no value or to a value of the type of the variable.  As records have no marks, nothing
is ever merged, so this is also all that a variable can hold.

The callbacks may write, so the steps of a delivery are followed down to the writes
that they cause, and the induction is on the depth of these.
-/

namespace ProcessImage

/-! ## Legacy traffic -/

/-- Whether data travel as a record. -/
def Payload.IsLegacy : Payload → Prop
  | legacy .. => True
  | structured _ => False

/-- Whether an event brings no other data than records. -/
def Channel.Event.IsLegacy : Event → Prop
  | updated update => update.payload.IsLegacy
  | _ => True

/-- Whether no other data than records are sent from outside. -/
def Operation.IsLegacy : Operation → Prop
  | drive (.post _ update) => update.payload.IsLegacy
  | drive (.submit _ payload) => payload.IsLegacy
  | _ => True

/-- Whether an entry tells of no error. -/
def Entry.Harmless {ε : Type} : Entry ε → Prop
  | note one => one.level ≠ .error
  | event _ => True

/-- What callbacks do to a cache is no error. -/
theorem Cache.harmless_call (cache : Cache) (snapshot : Snapshot) (callback : Nat × Reaction) :
    ∀ entry ∈ (cache.call keep snapshot callback).2, entry.Harmless := by
  rcases callback with ⟨number, reaction⟩
  cases reaction with
  | clear =>
      unfold Cache.call react keep
      cases snapshot.value.isEmpty <;> simp [Entry.Harmless]
  | _ => simp [Cache.call, react, Entry.Harmless]

/-! ## Variables -/

namespace Variable

variable {pv : Variable} {value : Value} {payload : Payload} {event : Channel.Event}

/-- What a variable can hold: no value, or one of its type. -/
def MayHold (pv : Variable) (value : Value) : Prop :=
  value = .empty ∨ Legacy.IsOf pv.type value

/-- A variable of the legacy protocol decodes every record. -/
theorem exists_decode (valid : validate .legacy pv.type pv.settings = .ok ())
    (isLegacy : payload.IsLegacy) :
    ∃ value, pv.decode payload = .ok (value, []) ∧ pv.MayHold value := by
  obtain ⟨_, _, tagged⟩ := Outcome.bind_eq_ok_iff.mp valid
  obtain ⟨tag, isTag, _⟩ := Outcome.map_eq_ok_iff.mp tagged
  cases payload with
  | structured tree => exact isLegacy.elim
  | legacy _ count bytes =>
      obtain ⟨value, read, holds⟩ := Legacy.Layout.exists_read pv.settings.layout isTag count bytes
      exact ⟨value, by simp [decode, read], holds⟩

/-- Every event means a change after which a variable holds what it can hold. -/
theorem exists_changeOf (valid : validate .legacy pv.type pv.settings = .ok ())
    (isLegacy : event.IsLegacy) :
    ∃ change, pv.changeOf event = .ok change ∧
      ∀ {state : Cache.State}, pv.MayHold state.snapshot.value →
        pv.MayHold (state.after change).snapshot.value := by
  cases event with
  | connected => exact ⟨_, rfl, id⟩
  | disconnected => exact ⟨_, rfl, id⟩
  | cleared => exact ⟨_, rfl, fun _ => .inl rfl⟩
  | updated update =>
      obtain ⟨value, decoded, holds⟩ := exists_decode valid isLegacy
      refine ⟨.updated value [] update.metadata, by simp [changeOf, decoded], fun {state} _ => ?_⟩
      have whole : state.isPartial value [] = false := by simp [Cache.State.isPartial]
      simp only [Cache.State.after, Cache.State.update, whole]
      exact holds

/-- What is noted of an event is no error. -/
theorem harmless_eventNotes (valid : validate .legacy pv.type pv.settings = .ok ())
    (isLegacy : event.IsLegacy) : ∀ note ∈ pv.eventNotes event, note.level ≠ .error := by
  cases event with
  | updated update =>
      obtain ⟨value, decoded, _⟩ := exists_decode valid isLegacy
      intro note inside
      simp only [eventNotes, decoded, List.mem_append, List.mem_singleton] at inside
      rcases inside with reading | rfl
      · unfold payloadNotes at reading
        split at reading
        next => cases reading
        next => exact Legacy.Layout.level_of_mem_readNotes reading
      · exact nofun
  | _ => exact nofun

/-- What a variable of the legacy protocol sends is a record. -/
theorem isLegacy_of_encode (encoded : pv.encode .legacy value = .ok (some payload)) :
    payload.IsLegacy := by
  obtain ⟨record, _, made⟩ := Outcome.bind_eq_ok_iff.mp encoded
  split at made
  next => cases made
  next =>
    cases made
    trivial

theorem harmless_encodeNotes : ∀ note ∈ pv.encodeNotes .legacy value, note.level ≠ .error :=
  fun _ inside => Legacy.Layout.level_of_mem_writeNotes inside

end Variable

/-! ## Stations -/

namespace Station

/-- On the legacy protocol only records travel, variables hold nothing but values of
their types, and no error was noted. -/
structure Typed (station : Station) : Prop where
  protocol : station.network.protocol = .legacy
  valid : ∀ {number pv}, station.pv? number = some pv →
    Variable.validate .legacy pv.type pv.settings = .ok ()
  holds : ∀ {number pv}, station.pv? number = some pv →
    pv.MayHold pv.cache.state.snapshot.value
  remembers : ∀ {name update}, (station.network.channel name).last = some update →
    update.payload.IsLegacy
  harmless : ∀ entry ∈ station.history, entry.Harmless

variable {station after : Station} {number observer : Nat} {pv : Variable} {name : String}
  {event : Channel.Event} {payload : Payload} {value : Value} {type : DataType}
  {settings : Settings} {set : Writer}

theorem typed_ofProtocol : (ofProtocol .legacy).Typed where
  protocol := rfl
  valid isPv := by simp [ofProtocol, pv?] at isPv
  holds isPv := by simp [ofProtocol, pv?] at isPv
  remembers isLast := by simp [ofProtocol, Network.channel] at isLast
  harmless _ inside := by simp [ofProtocol] at inside

/-! ## Single changes -/

theorem Typed.record (typed : station.Typed) {entries : List (Entry Station.Event)}
    (harmless : ∀ entry ∈ entries, entry.Harmless) : (station.record entries).Typed where
  protocol := typed.protocol
  valid := typed.valid
  holds := typed.holds
  remembers := typed.remembers
  harmless := List.forall_mem_append.mpr ⟨typed.harmless, harmless⟩

theorem Typed.leave (typed : station.Typed) {notes : List Note}
    (harmless : ∀ note ∈ notes, note.level ≠ .error) : (station.leave notes).Typed := by
  apply typed.record
  intro entry inside
  obtain ⟨note, isNote, rfl⟩ := List.mem_map.mp inside
  exact harmless note isNote

theorem Typed.setCache (typed : station.Typed) (isPv : station.pv? number = some pv)
    (cache : Cache) (holds : pv.MayHold cache.state.snapshot.value) :
    (station.setCache number cache).Typed := by
  constructor
  case protocol => exact typed.protocol
  case valid =>
    intro other otherPv isOther
    have valid := typed.valid isPv
    rcases of_pv?_setCache isPv isOther with ⟨_, rfl⟩ | ⟨_, old⟩
    · exact valid
    · exact typed.valid old
  case holds =>
    intro other otherPv isOther
    rcases of_pv?_setCache isPv isOther with ⟨_, rfl⟩ | ⟨_, old⟩
    · exact holds
    · exact typed.holds old
  case remembers => exact typed.remembers
  case harmless => exact typed.harmless

/-- A network of the same protocol that remembers the same updates does as well. -/
theorem Typed.withNetwork (typed : station.Typed) {network : Network}
    (protocol : network.protocol = station.network.protocol)
    (last : ∀ name, (network.channel name).last = (station.network.channel name).last) :
    ({ station with network } : Station).Typed where
  protocol := protocol.trans typed.protocol
  valid := typed.valid
  holds := typed.holds
  remembers {name _} isLast := typed.remembers ((last name).symm.trans isLast)
  harmless := typed.harmless

theorem Typed.notice (typed : station.Typed) (isLegacy : event.IsLegacy) (name : String) :
    (station.notice name event).Typed where
  protocol := typed.protocol
  valid := typed.valid
  holds := typed.holds
  remembers {other update} isLast := by
    unfold Station.notice at isLast
    rw [Network.channel_change] at isLast
    split at isLast
    next =>
      cases event with
      | updated new =>
          cases isLast
          exact isLegacy
      | cleared => cases isLast
      | connected => exact typed.remembers isLast
      | disconnected => exact typed.remembers isLast
    next => exact typed.remembers isLast
  harmless := typed.harmless

/-! ## Deliveries -/

/-- Whether writing keeps a station typed. -/
def Writer.KeepsTyped (set : Writer) : Prop :=
  ∀ number value (station : Station), station.Typed → (set number value station).Typed

theorem Typed.call (keeps : set.KeepsTyped) (typed : station.Typed) (number : Nat)
    (snapshot : Snapshot) (callback : Nat × Cache.Reaction) :
    (station.call set number snapshot callback).Typed := by
  unfold Station.call
  cases isPv : station.pv? number with
  | none => exact typed
  | some pv =>
      have called : ((station.setCache number
          ((pv.cache.call Cache.keep snapshot callback).1.advance callback.1)).record
            ((pv.cache.call Cache.keep snapshot callback).2.map
              (.map (.callback number)))).Typed := by
        apply (typed.setCache isPv _ _).record
        · intro entry inside
          obtain ⟨source, isSource, rfl⟩ := List.mem_map.mp inside
          have harmless := pv.cache.harmless_call snapshot callback source isSource
          cases source with
          | note one => exact harmless
          | event one => trivial
        · rw [Cache.state_advance, Cache.state_call_keep]
          exact typed.holds isPv
      dsimp only
      split
      next value _ => exact keeps number value _ called
      next => exact called

theorem Typed.foldl_call (keeps : set.KeepsTyped) (typed : station.Typed) (number : Nat)
    (snapshot : Snapshot) (callbacks : List (Nat × Cache.Reaction)) :
    (callbacks.foldl (Station.call set number snapshot) station).Typed := by
  induction callbacks generalizing station with
  | nil => exact typed
  | cons callback rest ih => exact ih (typed.call keeps number snapshot callback)

theorem Typed.hear (keeps : set.KeepsTyped) (typed : station.Typed) (isLegacy : event.IsLegacy)
    (number : Nat) : (station.hear set event number).Typed := by
  unfold Station.hear
  cases isPv : station.pv? number with
  | none => exact typed
  | some pv =>
      have valid := typed.valid isPv
      obtain ⟨change, means, holds⟩ := Variable.exists_changeOf valid isLegacy
      have noted := typed.leave (Variable.harmless_eventNotes valid isLegacy)
      have isNoted : (station.leave (pv.eventNotes event)).pv? number = some pv := isPv
      have changed := noted.setCache isNoted
        { pv.cache with state := pv.cache.state.after change } (holds (typed.holds isPv))
      have harmless : ∀ note ∈ change.notes, note.level ≠ .error := by
        cases change <;> simp [Cache.Change.notes, Note.debug]
      have told := changed.leave harmless
      simp only [means, Station.changeCache]
      exact told.foldl_call keeps number _ _

theorem Typed.deliver (keeps : set.KeepsTyped) (typed : station.Typed) (isLegacy : event.IsLegacy)
    (listener : Channel.Listener) : (station.deliver set event listener).Typed := by
  cases listener with
  | pv number => exact typed.hear keeps isLegacy number
  | observer number =>
      apply typed.record
      simp [Entry.Harmless]

theorem Typed.foldl_deliver (keeps : set.KeepsTyped) (typed : station.Typed)
    (isLegacy : event.IsLegacy) (listeners : List Channel.Listener) :
    (listeners.foldl (Station.deliver set event) station).Typed := by
  induction listeners generalizing station with
  | nil => exact typed
  | cons listener rest ih => exact ih (typed.deliver keeps isLegacy listener)

theorem Typed.dispatch (keeps : set.KeepsTyped) (typed : station.Typed) (name : String)
    (event : Channel.Event) (isLegacy : event.IsLegacy) :
    (station.dispatch set name event).Typed :=
  (typed.notice isLegacy name).foldl_deliver keeps isLegacy _

/-! ## Writes -/

theorem Typed.submitWith (keeps : set.KeepsTyped) (typed : station.Typed)
    (isLegacy : payload.IsLegacy)
    (submitted : station.submitWith set name payload = .ok (after, number)) : after.Typed := by
  by_cases connected : station.network.isConnected name = true
  · rw [submitWith_of_isConnected connected] at submitted
    cases submitted
    have taken : (station.take name payload).Typed := typed.withNetwork rfl fun _ => rfl
    unfold Station.respond
    cases (station.take name payload).network.mode with
    | echo => exact taken.dispatch keeps name _ isLegacy
    | hold => exact taken
    | reject => exact taken.leave (by simp [Note.warn])
  · rw [submitWith_of_not_isConnected connected] at submitted
    cases submitted

theorem Typed.await (typed : station.Typed) (write : Nat) : (station.await write).1.Typed := by
  unfold Station.await Network.await
  cases station.network.writes[write]? with
  | none => exact typed
  | some taken => exact typed.withNetwork rfl fun _ => rfl

theorem Typed.send (keeps : set.KeepsTyped) (typed : station.Typed) (pv : Variable)
    (isLegacy : payload.IsLegacy) : (station.send set pv payload).1.Typed := by
  unfold Station.send
  split
  next => exact typed.leave (by simp [Note.warn])
  next taken write submitted =>
    have waited := (typed.submitWith keeps isLegacy submitted).await write
    split
    next settled isSettled =>
      rw [isSettled] at waited
      exact waited
    next settled outcome _ isSettled =>
      rw [isSettled] at waited
      exact waited.leave (by simp [Note.warn])

/-- Every value can be sent or has no record to send. -/
theorem Typed.trySetWith_ne_error (typed : station.Typed) (number : Nat) (value : Value)
    (fault : Fault) : (station.trySetWith set number value).2 ≠ .error fault := by
  cases isPv : station.pv? number with
  | none => simp [Station.trySetWith, isPv]
  | some pv =>
      rw [ne_eq, trySetWith_eq_error_iff isPv, typed.protocol,
        Variable.encode_eq_error_iff (typed.valid isPv)]
      simp

theorem Typed.trySetWith (keeps : set.KeepsTyped) (typed : station.Typed) (number : Nat)
    (value : Value) : (station.trySetWith set number value).1.Typed := by
  unfold Station.trySetWith
  cases isPv : station.pv? number with
  | none => exact typed
  | some pv =>
      have noted : (station.leave (pv.encodeNotes station.network.protocol value)).Typed := by
        apply typed.leave
        rw [typed.protocol]
        exact Variable.harmless_encodeNotes
      dsimp only
      split
      next =>
        split
        next => exact noted
        next => exact noted
        next payload encoded =>
          rw [typed.protocol] at encoded
          exact noted.send keeps pv (Variable.isLegacy_of_encode encoded)
      next => exact typed.leave (by simp [Note.debug])

theorem Typed.setWith (keeps : set.KeepsTyped) (typed : station.Typed) (number : Nat)
    (value : Value) : (station.setWith set number value).1.Typed := by
  have tried := typed.trySetWith keeps number value
  unfold Station.setWith
  split
  next after done result =>
    rw [result] at tried
    exact tried
  next after fault result =>
    exact absurd (congrArg Prod.snd result) (typed.trySetWith_ne_error number value fault)

/-- The writes of callbacks keep a station typed at any depth. -/
theorem keepsTyped_writer (depth : Nat) : (writer depth).KeepsTyped := by
  induction depth with
  | zero => exact fun _ _ _ typed => typed
  | succ depth ih => exact fun number value _ typed => typed.setWith ih number value

/-! ## Operations -/

theorem Typed.perform (typed : station.Typed) {traffic : Traffic}
    (isLegacy : (Operation.drive traffic).IsLegacy) : (station.perform traffic).Typed := by
  have keeps : station.callbackWriter.KeepsTyped := keepsTyped_writer station.writesLeft
  cases traffic with
  | connect name =>
      exact (typed.leave (by simp [Note.debug])).dispatch keeps name .connected trivial
  | disconnect name =>
      exact (typed.leave (by simp [Note.debug])).dispatch keeps name .disconnected trivial
  | clear name => exact typed.dispatch keeps name .cleared trivial
  | post name update => exact typed.dispatch keeps name (.updated update) isLegacy
  | submit name payload =>
      simp only [Station.perform]
      split
      next submitted => exact typed.submitWith keeps isLegacy submitted
      next => exact typed
  | set number value => exact typed.setWith keeps number value

/-- What a channel replays keeps a station typed. -/
theorem Typed.replay (typed : station.Typed) (channel : Channel)
    (remembers : ∀ update, channel.last = some update → update.payload.IsLegacy)
    (listener : Channel.Listener) :
    (channel.replay.foldl
      (fun station event => station.deliver station.callbackWriter event listener)
      station).Typed := by
  have legacy : ∀ event ∈ channel.replay, event.IsLegacy := by
    unfold Channel.replay
    split
    next =>
      refine List.forall_mem_cons.mpr ⟨trivial, fun event inside => ?_⟩
      obtain ⟨update, isLast, rfl⟩ := List.mem_map.mp inside
      exact remembers update (Option.mem_toList.mp isLast)
    next => exact nofun
  generalize channel.replay = events at legacy
  induction events generalizing station with
  | nil => exact typed
  | cons event rest ih =>
      rw [List.forall_mem_cons] at legacy
      have keeps : station.callbackWriter.KeepsTyped := keepsTyped_writer station.writesLeft
      exact ih (typed.deliver keeps legacy.1 listener) legacy.2

theorem Typed.withNewcomer (typed : station.Typed)
    (valid : Variable.validate .legacy type settings = .ok ()) (name : String) :
    (station.withNewcomer name type settings).Typed where
  protocol := typed.protocol
  valid {number pv} isPv := by
    rw [pv?_withNewcomer] at isPv
    split at isPv
    next =>
      cases isPv
      exact valid
    next => exact typed.valid isPv
  holds {number pv} isPv := by
    rw [pv?_withNewcomer] at isPv
    split at isPv
    next =>
      cases isPv
      exact .inl rfl
    next => exact typed.holds isPv
  remembers {other update} isLast := by
    rw [channel_withNewcomer] at isLast
    split at isLast <;> exact typed.remembers isLast
  harmless := typed.harmless

theorem Typed.addVariable (typed : station.Typed)
    (added : station.addVariable name type settings = .ok (after, number)) : after.Typed := by
  obtain ⟨valid, rfl, text, rfl⟩ := of_addVariable added
  have joined := typed.withNewcomer (typed.protocol ▸ valid) name
  have replayed := joined.replay (station.network.channel name) (fun _ => typed.remembers)
    (.pv station.pvs.length)
  exact replayed.leave (by simp [Note.debug])

theorem Typed.observe (typed : station.Typed)
    (added : station.observe name = .ok (after, observer)) : after.Typed := by
  obtain ⟨rfl, rfl⟩ := of_observe added
  have last (other : String) :
      ((station.network.join name (.observer station.observers.length)).channel other).last =
        (station.network.channel other).last := by
    rw [Network.channel_join]
    split
    next same => rw [same]
    next => rfl
  have joined : (station.withObserver name).Typed :=
    ⟨typed.protocol, typed.valid, typed.holds,
      fun isLast => typed.remembers ((last _).symm.trans isLast), typed.harmless⟩
  exact joined.replay (station.network.channel name) (fun _ => typed.remembers)
    (.observer station.observers.length)

theorem last_unsubscribe (network : Network) (name other : String) (number : Nat) :
    ((network.unsubscribe name number).channel other).last = (network.channel other).last := by
  rw [Network.channel_unsubscribe]
  split
  next same => rw [same]
  next => rfl

theorem Typed.dismiss (typed : station.Typed) (observer : Nat) :
    (station.dismiss observer).Typed := by
  unfold Station.dismiss
  cases station.observers[observer]? with
  | none => exact typed
  | some entry => exact typed.withNetwork rfl fun name => last_unsubscribe _ _ name _

theorem Typed.dropVariable (typed : station.Typed) (number : Nat) :
    (station.dropVariable number).Typed := by
  cases isPv : station.pv? number with
  | none =>
      unfold Station.dropVariable
      rw [isPv]
      exact typed
  | some pv =>
      have stays {other : Nat} {otherPv : Variable}
          (isOther : (station.dropVariable number).pv? other = some otherPv) :
          station.pv? other = some otherPv := by
        rw [pv?_dropVariable isPv] at isOther
        split at isOther
        next => cases isOther
        next => exact isOther
      have left : station.dropVariable number =
          { station with
            network := station.network.unsubscribe pv.name pv.subscription
            pvs := station.pvs.set number none } := by
        simp [Station.dropVariable, isPv]
      constructor
      case protocol => rw [left]; exact typed.protocol
      case valid => exact fun isOther => typed.valid (stays isOther)
      case holds => exact fun isOther => typed.holds (stays isOther)
      case remembers =>
        intro name update isLast
        rw [left] at isLast
        exact typed.remembers ((last_unsubscribe _ _ _ _).symm.trans isLast)
      case harmless => rw [left]; exact typed.harmless

theorem Typed.operate (typed : station.Typed) {operation : Operation}
    (isLegacy : operation.IsLegacy) : (station.operate operation).Typed := by
  have keeps : station.callbackWriter.KeepsTyped := keepsTyped_writer station.writesLeft
  unfold Station.operate
  cases operation with
  | drive traffic => exact typed.perform isLegacy
  | trySet number value => exact typed.trySetWith keeps number value
  | setMode mode => exact typed.withNetwork rfl fun _ => rfl
  | release outcome => exact typed.withNetwork rfl fun _ => rfl
  | await write => exact typed.await write
  | observe name =>
      dsimp only
      split
      next added => exact typed.observe added
      next => exact typed
  | dismiss observer => exact typed.dismiss observer
  | addVariable name type settings =>
      dsimp only
      split
      next added => exact typed.addVariable added
      next => exact typed
  | dropVariable number => exact typed.dropVariable number
  | onUpdate number reaction =>
      dsimp only [Station.onUpdate]
      cases isPv : station.pv? number with
      | none => exact typed
      | some pv => exact typed.setCache isPv _ (typed.holds isPv)
  | removeCallback number callback =>
      dsimp only [Station.removeCallback]
      cases isPv : station.pv? number with
      | none => exact typed
      | some pv => exact typed.setCache isPv _ (typed.holds isPv)

theorem Typed.operated (typed : station.Typed) {operations : List Operation}
    (legacy : ∀ operation ∈ operations, operation.IsLegacy) :
    (station.operated operations).Typed := by
  induction operations generalizing station with
  | nil => exact typed
  | cons operation rest ih =>
      rw [List.forall_mem_cons] at legacy
      exact ih (typed.operate legacy.1) legacy.2

/-- Whatever happens on the legacy protocol, with whatever bytes in its records, no error is
noted, no variable fails to decode any record, and all variables hold no value or one of
their type, made of data of the kind of that type. -/
theorem typed_operated {operations : List Operation}
    (legacy : ∀ operation ∈ operations, operation.IsLegacy) :
    let after := (ofProtocol .legacy).operated operations
    (∀ note, .note note ∈ after.history → note.level ≠ .error) ∧
      ∀ {number pv}, after.pv? number = some pv →
        (pv.cache.state.snapshot.value = .empty ∨
          Legacy.IsOf pv.type pv.cache.state.snapshot.value) ∧
        ∀ tag count bytes, ∃ value, pv.decode (.legacy tag count bytes) = .ok (value, []) := by
  intro after
  have typed : after.Typed := typed_ofProtocol.operated legacy
  refine ⟨fun note inside => typed.harmless _ inside, fun {number pv} isPv => ?_⟩
  refine ⟨typed.holds isPv, fun tag count bytes => ?_⟩
  obtain ⟨value, decoded, _⟩ := Variable.exists_decode (typed.valid isPv)
    (show (Payload.legacy tag count bytes).IsLegacy from trivial)
  exact ⟨value, decoded⟩

/-- A record of another tag with too few bytes is read into an array of short integers,
while a callback writes. -/
theorem typed_operated_codes :
    let type := DataType.array (some "codes") (.scalar (.integer .int16)) (some 3)
    let operations : List Operation :=
      [.addVariable "codes" type {}, .onUpdate 0 (.write [some (.scalar (.bool true))]),
        .drive (.connect "codes"),
        .drive (.post "codes" { payload := .legacy .double 9 (some [1, 2, 3, 4, 5]) })]
    let after := (ofProtocol .legacy).operated operations
    (∀ note, .note note ∈ after.history → note.level ≠ .error) ∧
      ∃ pv, after.pv? 0 = some pv ∧ Legacy.IsOf pv.type pv.cache.state.snapshot.value ∧
        ∃ value, pv.decode (.legacy .string 0 (some [255])) = .ok (value, []) := by
  intro type operations after
  have legacy : ∀ operation ∈ operations, operation.IsLegacy := by
    simp [operations, Operation.IsLegacy, Payload.IsLegacy]
  obtain ⟨harmless, each⟩ := typed_operated legacy
  have present : (after.pv? 0).any (fun pv => !pv.cache.state.snapshot.value.isEmpty) = true := by
    decide +kernel
  rw [Option.any_eq_true] at present
  obtain ⟨pv, isPv, notEmpty⟩ := present
  obtain ⟨holds, decodes⟩ := each isPv
  refine ⟨harmless, pv, isPv, holds.resolve_left fun empty => ?_, decodes .string 0 (some [255])⟩
  simp [empty, Value.isEmpty] at notEmpty

end Station

end ProcessImage
