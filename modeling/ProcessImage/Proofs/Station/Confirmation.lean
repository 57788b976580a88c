import ProcessImage.Proofs.Station.Telling
import ProcessImage.Proofs.Variable.ReadBack

/-!
# Confirmed writes

A write is confirmed only when it was echoed, and then its variable has heard of its
own payload.  What the variable shows from then on is what it decodes from that
payload, whatever it had before.
-/

namespace ProcessImage

namespace Cache.State

/-- The state after an update that brings a whole value and no metadata. -/
def replaced (state : State) (value : Value) : State where
  snapshot := { state.snapshot with value }
  valid := !value.isEmpty

theorem update_eq_replaced {state : State} {value : Value} {changed : List Path}
    (whole : state.isPartial value changed = false) :
    state.update value changed {} = state.replaced value := by
  unfold update
  rw [whole]
  rfl

end Cache.State

namespace Station

variable {station : Station} {number : Nat} {pv : Variable} {value : Value}

/-- What a variable knew before does not matter, as long as it knows of the connection
of its channel. -/
theorem Orderly.withState (orderly : station.Orderly) (isPv : station.pv? number = some pv)
    {state : Cache.State} (connected : state.isConnected = pv.cache.state.isConnected) :
    (station.setCache number { pv.cache with state }).Orderly := by
  have was {other : Nat} {otherPv : Variable}
      (isOther : (station.setCache number { pv.cache with state }).pv? other = some otherPv) :
      ∃ old, station.pv? other = some old ∧ old.seat = otherPv.seat ∧
        otherPv.cache.callbacks = old.cache.callbacks ∧
        otherPv.cache.state.isConnected = old.cache.state.isConnected := by
    rcases of_pv?_setCache isPv isOther with ⟨rfl, rfl⟩ | ⟨_, old⟩
    · exact ⟨pv, isPv, rfl, rfl, connected⟩
    · exact ⟨otherPv, old, rfl, rfl, rfl⟩
  constructor
  case toSeated =>
    apply orderly.toSeated.congr
    case protocol => rfl
    case next => rfl
    case listeners => exact fun _ => rfl
    case observers => rfl
    case seats =>
      intro other
      by_cases same : other = number
      · subst same
        rw [pv?_setCache isPv, isPv]
        rfl
      · rw [pv?_setCache_of_ne same]
  case silent =>
    intro other otherPv isOther
    obtain ⟨old, wasPv, _, callbacks, _⟩ := was isOther
    unfold Cache.Quiet
    rw [callbacks]
    exact orderly.silent wasPv
  case knows =>
    intro other otherPv isOther
    obtain ⟨old, wasPv, seat, _, sameConnection⟩ := was isOther
    rw [sameConnection, orderly.knows wasPv, (Variable.seat_eq_iff.mp seat).1]
    rfl

/-- After a confirmed write a variable has what it reads back of the value, and nothing
of what it had before. -/
theorem Orderly.readsBack_setWith (orderly : station.Orderly)
    (isPv : station.pv? number = some pv)
    (declared : station.network.protocol = .structured →
      pv.type ≠ .empty ∧ pv.type.DistinctNames)
    (confirmed : (station.setWith (writer 0) number value).2 = true) :
    ∃ cache shown, (station.setWith (writer 0) number value).1.pv? number =
        some { pv with cache } ∧
      cache.state = pv.cache.state.replaced shown ∧ cache.state.value = shown ∧
      pv.ReadsBack station.network.protocol value shown := by
  obtain ⟨echo, payload, sends⟩ :=
    (accounts_setWith orderly isPv value).confirmed_iff.mp confirmed
  obtain ⟨cache, isAfter, state⟩ := (orderly.told_setWith isPv echo sends).pv isPv
  have back : ∃ shown, pv.ReadsBack station.network.protocol value shown := by
    have encoded := sends.encode
    have valid := orderly.valid isPv
    cases protocol : station.network.protocol with
    | structured =>
        obtain ⟨notEmpty, distinct⟩ := declared protocol
        exact Variable.readsBack_structured notEmpty distinct (protocol ▸ encoded)
    | legacy => exact Variable.readsBack_legacy (protocol ▸ valid) (protocol ▸ encoded)
  obtain ⟨shown, readsBack⟩ := back
  obtain ⟨sent, changed, isSent, decoded, whole⟩ := readsBack.echoed
  obtain rfl := sends.unique ⟨sends.connected, isSent⟩
  have replaced : cache.state = pv.cache.state.replaced shown := by
    rw [state, if_pos rfl]
    exact (Variable.follow_updated_of_ok decoded).trans
      (Cache.State.update_eq_replaced (whole pv.cache.state))
  refine ⟨cache, shown, isAfter, replaced, ?_, readsBack⟩
  have connected : (pv.cache.state.replaced shown).isConnected = true := sends.connected
  rw [replaced, Cache.State.value, if_pos connected]
  rfl

/-- At every station that is reached while no callback writes, a write that is confirmed
reads back, whatever the variable knew before: as the value in the type with bytes for
characters on the structured protocol, and as the value in the type on the legacy
protocol when the slots hold all its data.  A structured variable has to declare a type
whose structures have different field names. -/
theorem readsBack_operated (protocol : Protocol) {operations : List Operation}
    (silent : ∀ operation ∈ operations, operation.Silent)
    (isPv : ((ofProtocol protocol).operated operations).pv? number = some pv)
    (declared : protocol = .structured → pv.type ≠ .empty ∧ pv.type.DistinctNames)
    (state : Cache.State) (connected : state.isConnected = pv.cache.state.isConnected)
    (value : Value) :
    let before := ((ofProtocol protocol).operated operations).setCache number
      { pv.cache with state }
    (before.set number value).2 = true →
      ∃ cache shown, (before.set number value).1.pv? number = some { pv with cache } ∧
        cache.state = state.replaced shown ∧ cache.state.value = shown ∧
        pv.ReadsBack protocol value shown := by
  intro before confirmed
  have orderly : before.Orderly :=
    ((orderly_ofProtocol protocol).operated silent).withState isPv connected
  have isProtocol : before.network.protocol = protocol := protocol_operated protocol silent
  unfold set at confirmed ⊢
  rw [orderly.silent.callbackWriter] at confirmed ⊢
  rw [← isProtocol] at declared ⊢
  obtain ⟨cache, shown, isAfter, replaced, shows, back⟩ :=
    orderly.readsBack_setWith (pv?_setCache isPv _) declared confirmed
  -- What is sent and what is decoded do not depend on the cache.
  exact ⟨cache, shown, isAfter, replaced, shows, ⟨back.echoed, back.structured, back.legacy⟩⟩

/-- A letter that is written where a structure was reads back as its byte on the
structured protocol, and as itself on the legacy protocol. -/
theorem readsBack_operated_letter :
    let letter : Value := .scalar (.integer .char8 90 (by decide))
    let byte : Value := .scalar (.integer .uint8 90 (by decide))
    let state : Cache.State :=
      { snapshot := { value := .struct none [("x", letter)], connected := true }, valid := true }
    let operations : List Operation :=
      [.addVariable "code" letter.typeOf {}, .onUpdate 0 .read, .drive (.connect "code")]
    let before (protocol : Protocol) (pv : Variable) : Station :=
      ((ofProtocol protocol).operated operations).setCache 0 { pv.cache with state }
    (∃ pv cache, ((ofProtocol .structured).operated operations).pv? 0 = some pv ∧
      ((before .structured pv).set 0 letter).1.pv? 0 = some { pv with cache } ∧
      cache.state.value = byte) ∧
    ∃ pv cache, ((ofProtocol .legacy).operated operations).pv? 0 = some pv ∧
      ((before .legacy pv).set 0 letter).1.pv? 0 = some { pv with cache } ∧
      cache.state.value = letter := by
  intro letter byte state operations before
  have silent : ∀ operation ∈ operations, operation.Silent := by
    simp [operations, Operation.Silent, Cache.Reaction.writesLeft]
  constructor
  · obtain ⟨pv, isPv, type, connected, confirmed⟩ : ∃ pv,
        ((ofProtocol .structured).operated operations).pv? 0 = some pv ∧
        pv.type = letter.typeOf ∧ pv.cache.state.isConnected = true ∧
        ((before .structured pv).set 0 letter).2 = true := ⟨_, rfl, rfl, rfl, by decide +kernel⟩
    have declared : pv.type ≠ .empty ∧ pv.type.DistinctNames := by
      rw [type]
      exact ⟨by simp [letter, Value.typeOf], trivial⟩
    obtain ⟨cache, shown, isAfter, _, shows, back⟩ :=
      readsBack_operated .structured silent isPv (fun _ => declared) state connected.symm letter
        confirmed
    obtain ⟨coerced, fits, rfl⟩ := back.structured rfl
    rw [type] at fits
    cases fits
    exact ⟨pv, cache, isPv, isAfter, shows⟩
  · obtain ⟨pv, isPv, type, connected, confirmed⟩ : ∃ pv,
        ((ofProtocol .legacy).operated operations).pv? 0 = some pv ∧
        pv.type = letter.typeOf ∧ pv.cache.state.isConnected = true ∧
        ((before .legacy pv).set 0 letter).2 = true := ⟨_, rfl, rfl, rfl, by decide +kernel⟩
    obtain ⟨cache, shown, isAfter, _, shows, back⟩ :=
      readsBack_operated .legacy silent isPv (by simp) state connected.symm letter confirmed
    obtain ⟨coerced, fits, held⟩ := back.legacy rfl
    rw [type] at fits
    cases fits
    obtain rfl := held (by simp [Legacy.Layout.dataOf, Legacy.Layout.Holds])
    exact ⟨pv, cache, isPv, isAfter, shows⟩

end Station

end ProcessImage
