import ProcessImage.Legacy.Record
import ProcessImage.Proofs.Legacy.Slot
import ProcessImage.Proofs.Outcome
import ProcessImage.Proofs.Value.Coercion

/-!
# Values that survive as legacy records

A value that fits a type is written as a record with one slot for each datum.
When the slots hold all the data, the record is read back as the value in that
type: nothing is cut, and the number of slots tells the number of elements, be
it zero.
-/

namespace ProcessImage

open Outcome

/-! ## Data of a value in a type -/

namespace Value

/-- Elements in a scalar type are data of its kind. -/
theorem exists_data_of_mapM_coerce? {kind : Kind} {elements coerced : List Value}
    (fit : elements.mapM (coerce? (.scalar kind)) = some coerced) :
    ∃ data : List Scalar, coerced = data.map .scalar ∧ ∀ datum ∈ data, datum.kind = kind := by
  induction elements generalizing coerced with
  | nil =>
      cases fit
      exact ⟨[], rfl, by simp⟩
  | cons first rest ih =>
      simp only [List.mapM_cons, Option.bind_eq_bind, Option.bind_eq_some_iff, Option.pure_def,
        Option.some.injEq] at fit
      obtain ⟨_, firstFits, others, restFit, rfl⟩ := fit
      obtain ⟨datum, rfl, isKind⟩ := exists_datum_of_coerceScalar? firstFits
      obtain ⟨data, rfl, kinds⟩ := ih restFit
      exact ⟨datum :: data, rfl, List.forall_mem_cons.mpr ⟨isKind, kinds⟩⟩

end Value

namespace Legacy

theorem tagOfType_eq_ok_iff {type : DataType} {tag : Tag} :
    tagOfType type = .ok tag ↔ ∃ kind, type.elementKind? = some kind ∧ Tag.ofKind kind = tag := by
  unfold tagOfType carriedKind
  cases type.elementKind? <;> simp [Except.map]

namespace Layout

@[simp]
theorem dataOf_array (name : Option String) (element : DataType) (length : Option Nat)
    (data : List Scalar) : dataOf (.array name element length (data.map .scalar)) = data := by
  simp [dataOf, List.filterMap_map, Function.comp_def, Value.scalar?]

/-- A value in a type of the legacy protocol is made of its data, which all are
of the kind that the type carries. -/
theorem assemble_dataOf {type : DataType} {kind : Kind} (carries : type.elementKind? = some kind)
    {value coerced : Value} (fits : value.coerce? type = some coerced) :
    assemble type (dataOf coerced) = coerced ∧ ∀ datum ∈ dataOf coerced, datum.kind = kind := by
  cases type with
  | empty => cases carries
  | struct name fields => cases carries
  | scalar other =>
      cases carries
      obtain ⟨datum, rfl, isKind⟩ := Value.exists_datum_of_coerceScalar? fits
      simpa [dataOf, assemble] using isKind
  | array name element length =>
      cases element with
      | scalar other =>
          cases carries
          obtain ⟨source, elements, _, _, fit, rfl⟩ := Value.coerce?_array_eq_some_iff.mp fits
          obtain ⟨data, rfl, kinds⟩ := Value.exists_data_of_mapM_coerce? fit
          rw [dataOf_array]
          exact ⟨rfl, kinds⟩
      | _ => cases carries

/-! ## Reading -/

/-- Bytes are read as the value that their data make, and as no value where there are
none. -/
theorem read_some {layout : Layout} {type : DataType} {kind : Kind}
    (positive : 0 < layout.slotWidth (.ofKind kind)) (carries : type.elementKind? = some kind)
    (bytes : List UInt8) (count : Nat) :
    layout.read type count (some bytes) =
      .ok (((layout.readData kind bytes count).map (assemble type)).getD .empty) := by
  simp only [read, carriedKind, carries, ok_bind, Nat.ne_of_gt positive, if_false]
  cases layout.readData kind bytes count <;> rfl

/-! ## Rows of slots -/

theorem length_flatMap_fill (width : Nat) (rows : List (List UInt8)) :
    (rows.flatMap (fill width)).length = rows.length * width := by
  induction rows with
  | nil => simp
  | cons row rest ih =>
      rw [List.flatMap_cons, List.length_append, length_fill, ih, List.length_cons,
        Nat.add_one_mul, Nat.add_comm]

/-- Slots in a row are found again one by one. -/
theorem slots_flatMap_fill (width : Nat) (rows : List (List UInt8)) :
    slots width rows.length (rows.flatMap (fill width)) = rows.map (fill width) := by
  induction rows with
  | nil => rfl
  | cons row rest ih =>
      have front : (fill width row ++ rest.flatMap (fill width)).take width = fill width row :=
        List.take_left' (length_fill width row)
      have back : (fill width row ++ rest.flatMap (fill width)).drop width =
          rest.flatMap (fill width) := List.drop_left' (length_fill width row)
      rw [List.flatMap_cons, List.length_cons, slots, front, back, ih, List.map_cons]

/-- Data that their slots return have rows of bytes which are not cut and from
which they are read back. -/
theorem exists_rows {layout : Layout} {kind : Kind} {data : List Scalar}
    (kinds : ∀ datum ∈ data, datum.kind = kind) (returned : ∀ datum ∈ data, layout.Returns datum) :
    ∃ rows, data.mapM (slotBytes (.ofKind kind)) = some rows ∧ rows.length = data.length ∧
      cuts (layout.slotWidth (.ofKind kind)) rows = false ∧
      (rows.map (fill (layout.slotWidth (.ofKind kind)))).mapM (readSlot (.ofKind kind) kind) =
        some data := by
  induction data with
  | nil => exact ⟨[], rfl, rfl, rfl, rfl⟩
  | cons datum rest ih =>
      rw [List.forall_mem_cons] at kinds returned
      obtain ⟨rfl, kinds⟩ := kinds
      obtain ⟨bytes, written, short, back⟩ := returned.1
      obtain ⟨rows, restWritten, sameLength, uncut, restBack⟩ := ih kinds returned.2
      refine ⟨bytes :: rows, ?_, ?_, ?_, ?_⟩
      · simp [List.mapM_cons, written, restWritten]
      · simp [sameLength]
      · simpa [cuts, short] using uncut
      · simp [List.mapM_cons, back, restBack]

/-! ## Records -/

/-- A record that has bytes was made from the data of the value in the type, one row
for each datum. -/
theorem exists_rows_of_write {layout : Layout} {type : DataType} {value : Value} {record : Record}
    (written : layout.write type value = .ok record) (present : record.isEmpty = false) :
    ∃ kind coerced rows, type.elementKind? = some kind ∧ value.coerce? type = some coerced ∧
      (dataOf coerced).mapM (slotBytes (.ofKind kind)) = some rows ∧
      record.count = (dataOf coerced).length ∧
      record.bytes = rows.flatMap (fill (layout.slotWidth (.ofKind kind))) := by
  obtain ⟨tag, tagged, made⟩ := Outcome.bind_eq_ok_iff.mp written
  obtain ⟨kind, carries, rfl⟩ := tagOfType_eq_ok_iff.mp tagged
  split at made
  next =>
    cases made
    cases present
  next coerced fits =>
    dsimp only at made
    split at made
    next =>
      cases made
      cases present
    next rows isRows =>
      cases made
      exact ⟨kind, coerced, rows, carries, fits, isRows, rfl, rfl⟩

/-- What is read from rows is what their slots give one by one. -/
theorem readData_flatMap_fill {layout : Layout} {kind : Kind}
    (positive : 0 < layout.slotWidth (.ofKind kind)) (rows : List (List UInt8)) :
    layout.readData kind (rows.flatMap (fill (layout.slotWidth (.ofKind kind)))) rows.length =
      (rows.map (fill (layout.slotWidth (.ofKind kind)))).mapM (readSlot (.ofKind kind) kind) := by
  have readable : layout.readable (.ofKind kind)
      (rows.flatMap (fill (layout.slotWidth (.ofKind kind)))) rows.length = rows.length := by
    rw [readable, length_flatMap_fill, Nat.mul_div_cancel _ positive, Nat.min_self]
  simp only [readData, readable, slots_flatMap_fill]

/-- The record of data that all have bytes holds one slot for each, and is read back slot by
slot. -/
theorem exists_record_of_rows {layout : Layout} {type : DataType} {kind : Kind}
    (positive : 0 < layout.slotWidth (.ofKind kind)) (carries : type.elementKind? = some kind)
    {value coerced : Value} (fits : value.coerce? type = some coerced) {rows : List (List UInt8)}
    (isRows : (dataOf coerced).mapM (slotBytes (.ofKind kind)) = some rows) :
    ∃ record, layout.write type value = .ok record ∧ record.tag = .ofKind kind ∧
      record.count = (dataOf coerced).length ∧
      record.bytes = rows.flatMap (fill (layout.slotWidth (.ofKind kind))) ∧
      (record.truncated = true ↔
        Tag.ofKind kind = .string ∧ ∃ row ∈ rows, layout.slotWidth (.ofKind kind) < row.length) ∧
      layout.read type record.count (some record.bytes) =
        .ok ((((rows.map (fill (layout.slotWidth (.ofKind kind)))).mapM
          (readSlot (.ofKind kind) kind)).map (assemble type)).getD .empty) := by
  have tagged : tagOfType type = .ok (.ofKind kind) := tagOfType_eq_ok_iff.mpr ⟨kind, carries, rfl⟩
  have sameLength := (Value.exists_source_of_mapM isRows).1
  refine ⟨⟨.ofKind kind, (dataOf coerced).length,
    rows.flatMap (fill (layout.slotWidth (.ofKind kind))),
    Tag.ofKind kind = .string ∧ cuts (layout.slotWidth (.ofKind kind)) rows⟩,
    by simp [write, tagged, fits, isRows], rfl, rfl, rfl, by simp [cuts], ?_⟩
  rw [read_some positive carries, ← sameLength, readData_flatMap_fill positive]

/-- A value that fits a type is read back from its record as it fits, when the
slots hold all its data.  The record has one whole slot for each datum. -/
theorem read_write {layout : Layout} (wide : 0 < layout.stringWidth) {type : DataType} {tag : Tag}
    (tagged : tagOfType type = .ok tag) {value coerced : Value}
    (fits : value.coerce? type = some coerced)
    (held : ∀ datum ∈ dataOf coerced, layout.Holds datum) :
    ∃ record, layout.write type value = .ok record ∧ record.tag = tag ∧
      record.count = (dataOf coerced).length ∧
      record.bytes.length = record.count * layout.slotWidth tag ∧ record.truncated = false ∧
      layout.read type record.count (some record.bytes) = .ok coerced := by
  obtain ⟨kind, carries, rfl⟩ := tagOfType_eq_ok_iff.mp tagged
  obtain ⟨assembled, kinds⟩ := assemble_dataOf carries fits
  obtain ⟨rows, written, sameLength, uncut, back⟩ :=
    exists_rows kinds fun datum inside => (held datum inside).returns
  have positive : 0 < layout.slotWidth (.ofKind kind) := slotWidth_pos wide _
  have bytes := length_flatMap_fill (layout.slotWidth (.ofKind kind)) rows
  refine ⟨⟨.ofKind kind, (dataOf coerced).length,
    rows.flatMap (fill (layout.slotWidth (.ofKind kind))), false⟩, ?_, rfl, rfl, ?_, rfl, ?_⟩
  · simp [write, tagged, fits, written, uncut]
  · rw [bytes, sameLength]
  · have readable : layout.readable (.ofKind kind)
        (rows.flatMap (fill (layout.slotWidth (.ofKind kind)))) (dataOf coerced).length =
          rows.length := by
      rw [Layout.readable, bytes, Nat.mul_div_cancel _ positive, sameLength, Nat.min_self]
    have data : layout.readData kind (rows.flatMap (fill (layout.slotWidth (.ofKind kind))))
        (dataOf coerced).length = some (dataOf coerced) := by
      simp only [readData, readable, slots_flatMap_fill, back]
    simp [read, carriedKind, carries, Nat.ne_of_gt positive, data, assembled]

/-- The least counter of 64 bits takes up its text slot, beside a truth value
that counts as one. -/
theorem read_write_counters :
    let layout : Layout := ⟨20⟩
    let type := DataType.array (some "counters") (.scalar (.integer .int64)) (some 3)
    let least := Scalar.integer .int64 (-9223372036854775808) (by decide)
    let value := Value.array none .empty none [.scalar least, .scalar (.bool true)]
    let coerced := Value.array (some "counters") (.scalar (.integer .int64)) (some 3)
      [.scalar least, .scalar (.integer .int64 1 (by decide))]
    0 < layout.stringWidth ∧ tagOfType type = .ok .string ∧ value.coerce? type = some coerced ∧
      (∀ datum ∈ dataOf coerced, layout.Holds datum) ∧
      ∃ record, layout.write type value = .ok record ∧ record.count = 2 ∧
        record.bytes.length = 40 ∧ record.truncated = false ∧
        layout.read type 2 (some record.bytes) = .ok coerced := by
  intro layout type least value coerced
  have tagged : tagOfType type = .ok .string := rfl
  have fits : value.coerce? type = some coerced := rfl
  have held : ∀ datum ∈ dataOf coerced, layout.Holds datum := by
    have data : dataOf coerced = [least, .integer .int64 1 (by decide)] := rfl
    have first : (Text.encode (Text.writeInt (-9223372036854775808))).length ≤ 20 := by decide
    have second : (Text.encode (Text.writeInt 1)).length ≤ 20 := by decide
    simpa [data, Layout.Holds, least] using ⟨first, second⟩
  obtain ⟨record, written, _, count, bytes, uncut, back⟩ :=
    read_write (by decide : 0 < layout.stringWidth) tagged fits held
  rw [count] at bytes back
  exact ⟨by decide, tagged, fits, held, record, written, count, bytes, uncut, back⟩

end Layout

end Legacy

end ProcessImage
