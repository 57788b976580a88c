import ProcessImage.Proofs.Legacy.RoundTrip

/-!
# Records with nothing to send

A record without bytes stands for a value that cannot be sent: it does not convert to
the type, or one of its data is an unsigned integer that no choice holds.  All other
data have bytes, and no slot is without width, so one datum is enough for a record to
have bytes.

An array without elements converts and has no datum that is refused, but its record is
the same: it has no bytes either, so there is nothing to send for it.
-/

namespace ProcessImage.Legacy

/-! ## Data without bytes -/

/-- Whether a datum is an unsigned integer of 32 bits that no choice holds. -/
def ExceedsChoice : Scalar → Prop
  | .integer .uint32 number _ => 65535 < number
  | _ => False

/-- An unsigned integer has bytes in a choice as far as a choice holds it. -/
theorem slotBytes_enum_eq_none_iff {kind : IntegerKind} {number : Int}
    (member : kind.Contains number) (low : 0 ≤ number) :
    slotBytes .enum (.integer kind number member) = none ↔ 65535 < number := by
  have inChoice : IntegerKind.uint16.Contains number ↔ number ≤ 65535 := and_iff_right low
  simp only [slotBytes, Scalar.convert?_integer, Scalar.ofInt?]
  by_cases small : number ≤ 65535
  · simp [dif_pos (inChoice.mpr small), small]
  · simpa [dif_neg (mt inChoice.mp small)] using small

/-- Nothing else is without bytes under the tag of its kind. -/
theorem slotBytes_eq_none_iff {datum : Scalar} :
    slotBytes (.ofKind datum.kind) datum = none ↔ ExceedsChoice datum := by
  cases datum with
  | bool | float32 | float64 | string =>
      simp [Scalar.kind, Tag.ofKind, slotBytes, ExceedsChoice]
  | integer kind number member =>
      have low := member.1
      have high := member.2
      cases kind with
      | char8 | int8 | int16 | int32 | int64 | uint64 =>
          simp [Scalar.kind, Tag.ofKind, slotBytes, ExceedsChoice]
      | uint8 | uint16 =>
          have small : number ≤ 65535 := Int.le_trans high (by decide)
          simp [Scalar.kind, Tag.ofKind, slotBytes_enum_eq_none_iff member low, small,
            ExceedsChoice]
      | uint32 =>
          simp [Scalar.kind, Tag.ofKind, slotBytes_enum_eq_none_iff member low, ExceedsChoice]

/-- Data of one kind have no rows of bytes exactly when one of them exceeds a choice. -/
theorem mapM_slotBytes_eq_none_iff {kind : Kind} {data : List Scalar}
    (kinds : ∀ datum ∈ data, datum.kind = kind) :
    data.mapM (slotBytes (.ofKind kind)) = none ↔ ∃ datum ∈ data, ExceedsChoice datum := by
  rw [Value.mapM_eq_none_iff]
  refine exists_congr fun datum => and_congr_right fun inside => ?_
  rw [← kinds datum inside, slotBytes_eq_none_iff]

namespace Layout

variable {layout : Layout} {type : DataType} {tag : Tag} {kind : Kind} {value coerced : Value}

/-! ## Empty records -/

/-- A value in a type has no data exactly when it is an array without elements. -/
theorem dataOf_eq_nil_iff (carries : type.elementKind? = some kind)
    (fits : value.coerce? type = some coerced) :
    dataOf coerced = [] ↔ coerced.elements? = some [] := by
  cases type with
  | empty => cases carries
  | struct name fields => cases carries
  | scalar other =>
      obtain ⟨datum, rfl, -⟩ := Value.exists_datum_of_coerceScalar? fits
      simp [dataOf, Value.elements?]
  | array name element length =>
      rw [← (assemble_dataOf carries fits).1]
      simp [assemble, Value.elements?]

/-- Rows in slots that have a width are bytes, unless there are none. -/
theorem isEmpty_flatMap_fill {width : Nat} (positive : 0 < width) (rows : List (List UInt8)) :
    (rows.flatMap (fill width)).isEmpty = true ↔ rows = [] := by
  rw [List.isEmpty_iff_length_eq_zero, length_flatMap_fill, Nat.mul_eq_zero,
    List.length_eq_zero_iff, or_iff_left (Nat.ne_of_gt positive)]

/-- Whether there is nothing to send for a value: it does not convert to the type, or one
of its data there exceeds a choice, or it has none, as an array without elements. -/
def NothingToSend (type : DataType) (value : Value) : Prop :=
  value.coerce? type = none ∨
    ∃ coerced, value.coerce? type = some coerced ∧
      ((∃ datum ∈ dataOf coerced, ExceedsChoice datum) ∨ coerced.elements? = some [])

/-- There is always a record.  It is empty exactly when there is nothing to send for the
value, and then it has neither slots nor bytes: no bytes of the other data are left. -/
theorem exists_write_isEmpty_iff (wide : 0 < layout.stringWidth)
    (tagged : tagOfType type = .ok tag) (value : Value) :
    ∃ record, layout.write type value = .ok record ∧
      (record.isEmpty = true ↔ NothingToSend type value) ∧
      (record.isEmpty = true → record = .none tag) := by
  obtain ⟨kind, carries, rfl⟩ := tagOfType_eq_ok_iff.mp tagged
  cases fits : value.coerce? type with
  | none =>
      refine ⟨.none (.ofKind kind), by simp [write, tagged, fits], ?_, fun _ => rfl⟩
      exact iff_of_true rfl (.inl fits)
  | some coerced =>
      have refused := mapM_slotBytes_eq_none_iff (assemble_dataOf carries fits).2
      cases written : (dataOf coerced).mapM (slotBytes (.ofKind kind)) with
      | none =>
          refine ⟨.none (.ofKind kind), by simp [write, tagged, fits, written], ?_, fun _ => rfl⟩
          exact iff_of_true rfl (.inr ⟨coerced, fits, .inl (refused.mp written)⟩)
      | some rows =>
          have sameLength := (Value.exists_source_of_mapM written).1
          have noRows : rows = [] ↔ dataOf coerced = [] := by
            rw [← List.length_eq_zero_iff, sameLength, List.length_eq_zero_iff]
          have accepted : ¬ ∃ datum ∈ dataOf coerced, ExceedsChoice datum :=
            mt refused.mpr (by simp [written])
          have nothing : NothingToSend type value ↔ coerced.elements? = some [] := by
            simp [NothingToSend, fits, accepted]
          have positive := slotWidth_pos wide (.ofKind kind)
          refine ⟨⟨.ofKind kind, (dataOf coerced).length,
            rows.flatMap (fill (layout.slotWidth (.ofKind kind))),
            Tag.ofKind kind = .string ∧ cuts (layout.slotWidth (.ofKind kind)) rows⟩,
            by simp [write, tagged, fits, written], ?_, ?_⟩
          · rw [nothing, ← dataOf_eq_nil_iff carries fits, ← noRows]
            exact isEmpty_flatMap_fill positive rows
          · intro empty
            obtain rfl := (isEmpty_flatMap_fill positive rows).mp empty
            simp [noRows.mp rfl, cuts, Record.none]

end Layout

end ProcessImage.Legacy
