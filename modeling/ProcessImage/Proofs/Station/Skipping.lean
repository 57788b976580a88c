import ProcessImage.Proofs.Legacy.Emptiness
import ProcessImage.Proofs.Station.Writing

/-!
# Skipped writes

On the legacy protocol no write ends with a fault: a value for which there is nothing to
send is skipped, and all others are sent.  An array without elements is among those that
are skipped, though it fits the type as it is.
-/

namespace ProcessImage

open Legacy Legacy.Layout

/-- What a variable of the legacy protocol sends is the record of the value, unless there
is nothing to send. -/
theorem Variable.encode_legacy {pv : Variable} {tag : Tag}
    (wide : 0 < pv.settings.layout.stringWidth) (tagged : tagOfType pv.type = .ok tag)
    (value : Value) :
    (NothingToSend pv.type value ∧ pv.encode .legacy value = .ok none) ∨
      ∃ record, ¬ NothingToSend pv.type value ∧
        pv.settings.layout.write pv.type value = .ok record ∧
        pv.encode .legacy value =
          .ok (some (.legacy record.tag record.count (some record.bytes))) := by
  obtain ⟨record, written, empty_iff, -⟩ := exists_write_isEmpty_iff wide tagged value
  cases empty : record.isEmpty with
  | true => exact .inl ⟨empty_iff.mp empty, by simp [encode, written, empty]⟩
  | false =>
      have something : ¬ NothingToSend pv.type value := mt empty_iff.mpr (by simp [empty])
      exact .inr ⟨record, something, written, by simp [encode, written, empty]⟩

namespace Station

variable {station : Station} {number : Nat} {pv : Variable} {value : Value}

/-- The station and the answer after a connected variable skipped a write. -/
def skip (station : Station) (pv : Variable) (value : Value) : Station × Except Fault Bool :=
  (station.leave (pv.encodeNotes station.network.protocol value), .ok false)

/-- The station and the answer after a connected variable sent a payload for a value. -/
def answer (station : Station) (pv : Variable) (value : Value) (payload : Payload) :
    Station × Except Fault Bool :=
  let (sent, done) := (station.leave (pv.encodeNotes station.network.protocol value)).send
    station.callbackWriter pv payload
  (sent, .ok done)

/-- A connected variable skips a value without payload. -/
theorem trySet_of_encode_none (isPv : station.pv? number = some pv)
    (connected : pv.cache.state.isConnected = true)
    (encoded : pv.encode station.network.protocol value = .ok none) :
    station.trySet number value = station.skip pv value := by
  simp [trySet, trySetWith, skip, isPv, connected, encoded]

/-- A connected variable sends the payload of a value. -/
theorem trySet_of_encode_some {payload : Payload} (isPv : station.pv? number = some pv)
    (connected : pv.cache.state.isConnected = true)
    (encoded : pv.encode station.network.protocol value = .ok (some payload)) :
    station.trySet number value = station.answer pv value payload := by
  simp [trySet, trySetWith, answer, isPv, connected, encoded]

/-- A record of a type is empty exactly when there is nothing to send for the value; a
connected legacy variable of the type skips the write of such a value, and sends the
record of any other. -/
theorem trySet_nothingToSend {layout : Layout} (wide : 0 < layout.stringWidth) {type : DataType}
    {tag : Tag} (tagged : tagOfType type = .ok tag) (value : Value) :
    (∃ record, layout.write type value = .ok record ∧
      (record.isEmpty = true ↔ NothingToSend type value) ∧
      (record.isEmpty = true → record = .none tag)) ∧
    ∀ (station : Station) (number : Nat) (pv : Variable),
      station.network.protocol = .legacy → station.pv? number = some pv → pv.type = type →
      pv.settings.layout = layout → pv.cache.state.isConnected = true →
        (NothingToSend type value → station.trySet number value = station.skip pv value) ∧
        (¬ NothingToSend type value →
          ∃ record, layout.write type value = .ok record ∧
            station.trySet number value = station.answer pv value
              (.legacy record.tag record.count (some record.bytes))) := by
  refine ⟨exists_write_isEmpty_iff wide tagged value, ?_⟩
  rintro station number pv legacy isPv rfl rfl connected
  rcases Variable.encode_legacy wide tagged value with
    ⟨nothing, encoded⟩ | ⟨record, something, written, encoded⟩
  · exact ⟨fun _ => trySet_of_encode_none isPv connected (legacy ▸ encoded), absurd nothing⟩
  · exact ⟨fun nothing => absurd nothing something,
      fun _ => ⟨record, written, trySet_of_encode_some isPv connected (legacy ▸ encoded)⟩⟩

/-- The type of any number of counters of 32 bits. -/
def counters : DataType :=
  .scalarArray (.integer .uint32)

/-- A station that echoes, with one connected legacy variable, for counters. -/
def withCounters : Station where
  network := {
    protocol := .legacy
    channels := [("COUNTERS", { connected := true, listeners := [(0, .pv 0)] })]
    next := 1 }
  pvs := [some {
    name := "COUNTERS"
    type := counters
    subscription := 0
    cache := { state := { snapshot := { connected := true } } } }]

/-- Three counters are skipped as the one in the middle is too large, and one counter
alone is sent. -/
theorem trySet_nothingToSend_counters :
    let small := Scalar.integer .uint32 5 (by decide)
    let large := Scalar.integer .uint32 65536 (by decide)
    0 < (⟨40⟩ : Layout).stringWidth ∧ tagOfType counters = .ok .enum ∧
      (withCounters.trySet 0 (.ofScalars (.integer .uint32) [small, large, small])).2 =
        .ok false ∧
      ∃ record, (⟨40⟩ : Layout).write counters (.ofScalars (.integer .uint32) [small]) =
        .ok record ∧ record.isEmpty = false := by
  intro small large
  have tagged : tagOfType counters = .ok .enum := rfl
  have wide : 0 < (⟨40⟩ : Layout).stringWidth := by decide
  refine ⟨wide, tagged, ?_, ?_⟩
  · have nothing : NothingToSend counters
        (.ofScalars (.integer .uint32) [small, large, small]) := by
      refine .inr ⟨_, rfl, .inl ⟨large, ?_, (by decide : (65535 : Int) < 65536)⟩⟩
      exact List.mem_cons_of_mem _ List.mem_cons_self
    rw [((trySet_nothingToSend wide tagged _).2 withCounters 0 _ rfl rfl rfl rfl rfl).1 nothing]
    rfl
  · obtain ⟨⟨record, written, empty_iff, -⟩, -⟩ :=
      trySet_nothingToSend wide tagged (.ofScalars (.integer .uint32) [small])
    refine ⟨record, written, Bool.eq_false_iff.mpr (mt empty_iff.mp ?_)⟩
    rintro (misfit | ⟨_, fits, ⟨datum, inside, large⟩ | none⟩)
    · cases misfit
    · cases fits
      obtain rfl := List.mem_singleton.mp inside
      exact absurd large (by decide : ¬ (65535 : Int) < 5)
    · cases fits
      cases none

/-- No counters at all fit the type as they are, and none of them is too large, but their
record is empty and the write is skipped. -/
theorem no_counters_skipped :
    let nothing := Value.ofScalars (.integer .uint32) []
    tagOfType counters = .ok .enum ∧ nothing.coerce? counters = some nothing ∧
      (∀ datum ∈ dataOf nothing, ¬ ExceedsChoice datum) ∧
      (⟨40⟩ : Layout).write counters nothing = .ok (.none .enum) ∧
      (Record.none .enum).isEmpty = true ∧ (withCounters.trySet 0 nothing).2 = .ok false :=
  ⟨rfl, rfl, fun _ inside => absurd inside List.not_mem_nil, rfl, rfl, rfl⟩

end Station

end ProcessImage
