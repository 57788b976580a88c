import ProcessImage.Proofs.Legacy.Emptiness
import ProcessImage.Proofs.Legacy.Slotwise
import ProcessImage.Proofs.Scalar.Floating

/-!
# Floating-point numbers in slots

A slot of a floating-point type holds what became of the datum that it was made from.  For
data that stand for a number, this is a finite number as long as the number lies below the
limit of the wide format.  A literal may write a number beyond: there is an infinity in the
slot then, and no sign that the number did not fit.
-/

namespace ProcessImage

/-! ## Sources -/

namespace Value

/-- The datum that the datum at a place of a value in a type is made from. -/
inductive IsSource : DataType → Value → Nat → Scalar → Prop
  | scalar {kind : Kind} {value : Value} {datum : Scalar} (sole : IsSole value datum) :
      IsSource (.scalar kind) value 0 datum
  | element {name : Option String} {element : DataType} {length : Option Nat} {value : Value}
      {members : List Value} (isMembers : value.members? = some members) {place : Nat}
      {member : Value} (here : members[place]? = some member) {datum : Scalar}
      (sole : IsSole member datum) :
      IsSource (.array name element length) value place datum

end Value

namespace Legacy

open Ieee Scalar

variable {layout : Layout} {type : DataType} {kind : Kind} {value coerced : Value}
  {record : Record}

/-- Each datum of a value in a type is made from a source, converted to the kind that the type
carries. -/
theorem Layout.exists_source (carries : type.elementKind? = some kind)
    (fits : value.coerce? type = some coerced) {place : Nat} {datum : Scalar}
    (here : (dataOf coerced)[place]? = some datum) :
    ∃ source, value.IsSource type place source ∧ source.convert? kind = some datum := by
  cases type with
  | empty => cases carries
  | struct name fields => cases carries
  | scalar other =>
      cases carries
      obtain ⟨source, result, sole, converted, rfl⟩ := Value.exists_sole_of_coerceScalar? fits
      cases place with
      | zero =>
          obtain rfl : result = datum := Option.some.inj here
          exact ⟨source, .scalar sole, converted⟩
      | succ place => cases here
  | array name element length =>
      cases element with
      | scalar other =>
          cases carries
          obtain ⟨members, elements, isMembers, -, fit, rfl⟩ :=
            Value.coerce?_array_eq_some_iff.mp fits
          obtain ⟨data, rfl, -⟩ := Value.exists_data_of_mapM_coerce? fit
          rw [dataOf_array] at here
          have inOrder := congrArg (·[place]?) (Value.mapM_eq_some_iff.mp fit)
          simp only [List.getElem?_map, here, Option.map_some] at inOrder
          obtain ⟨member, isMember, memberFits⟩ := Option.map_eq_some_iff.mp inOrder
          obtain ⟨source, result, sole, converted, same⟩ :=
            Value.exists_sole_of_coerceScalar? memberFits
          cases same
          exact ⟨source, .element isMembers isMember sole, converted⟩
      | _ => cases carries

/-- Slots hold all floating-point data. -/
theorem Layout.holds_of_floating (floating : kind = .float32 ∨ kind = .float64) (datum : Scalar)
    (isKind : datum.kind = kind) : layout.Holds datum := by
  subst isKind
  cases datum with
  | float32 | float64 => trivial
  | bool | integer | string => rcases floating with other | other <;> cases other

/-- A record is made of whole slots and is read as the data that it was made from, when the slots
of the kind hold all data. -/
theorem Layout.readData_of_write (positive : 0 < layout.slotWidth (.ofKind kind))
    (carries : type.elementKind? = some kind)
    (held : ∀ datum : Scalar, datum.kind = kind → layout.Holds datum)
    (written : layout.write type value = .ok record) (present : record.isEmpty = false) :
    ∃ coerced, value.coerce? type = some coerced ∧ record.count = (dataOf coerced).length ∧
      record.bytes.length = record.count * layout.slotWidth (.ofKind kind) ∧
      layout.readData kind record.bytes record.count = some (dataOf coerced) := by
  obtain ⟨other, coerced, rows, alsoCarries, fits, isRows, count, bytes⟩ :=
    exists_rows_of_write written present
  obtain rfl := Option.some.inj (carries.symm.trans alsoCarries)
  have kinds := (assemble_dataOf carries fits).2
  obtain ⟨sameRows, alsoRows, sameLength, -, back⟩ :=
    exists_rows kinds fun datum inside => (held datum (kinds datum inside)).returns
  obtain rfl := Option.some.inj (isRows.symm.trans alsoRows)
  refine ⟨coerced, fits, count, ?_, ?_⟩
  · rw [bytes, count, length_flatMap_fill, sameLength]
  · rw [bytes, count, ← sameLength, readData_flatMap_fill positive, back]

/-- There is always a record.  When the slots of the kind hold all data, each slot of the record
holds a source, converted to the kind. -/
theorem Layout.exists_write_sources (wide : 0 < layout.stringWidth)
    (carries : type.elementKind? = some kind)
    (held : ∀ datum : Scalar, datum.kind = kind → layout.Holds datum) (value : Value) :
    ∃ record, layout.write type value = .ok record ∧
      record.bytes.length = record.count * layout.slotWidth (.ofKind kind) ∧
      ∀ place < record.count, ∃ source result, value.IsSource type place source ∧
        source.convert? kind = some result ∧
        readSlot (.ofKind kind) kind
          (slotAt (layout.slotWidth (.ofKind kind)) place record.bytes) = some result := by
  have tagged : tagOfType type = .ok (.ofKind kind) :=
    tagOfType_eq_ok_iff.mpr ⟨kind, carries, rfl⟩
  obtain ⟨record, written, -, nothing⟩ := exists_write_isEmpty_iff wide tagged value
  rcases Bool.eq_false_or_eq_true record.isEmpty with empty | present
  · obtain rfl := nothing empty
    exact ⟨_, written, (Nat.zero_mul _).symm, fun place inside => absurd inside place.not_lt_zero⟩
  · obtain ⟨coerced, fits, count, whole, read⟩ :=
      readData_of_write (slotWidth_pos wide _) carries held written present
    refine ⟨record, written, whole, fun place inside => ?_⟩
    rw [count, length_of_readData read] at inside
    obtain ⟨result, isResult, here⟩ := exists_datum_of_readData read inside
    obtain ⟨source, isSource, converted⟩ := exists_source carries fits here
    exact ⟨source, result, isSource, converted, isResult⟩

namespace Layout

/-- A number in a floating-point kind is refused or finite exactly below the limit of the wide
format.  From there on, where only a text can write it, it is the infinity of its sign.

There is always a record for a value in a floating-point type, and it is made of whole slots.
Each of them holds what became of the datum that it was made from, so that what stands for a
number is finite there exactly below the same limit. -/
theorem write_floating {kind : Kind} (floating : kind = .float32 ∨ kind = .float64) :
    (∀ {datum : Scalar} {number : ℚ}, datum.Denotes number →
      ((∀ result, datum.convert? kind = some result → result.isFiniteFloat = true) ↔
        |number| < 2 ^ 1024 - 2 ^ 970) ∧
      (2 ^ 1024 - 2 ^ 970 ≤ |number| → (∃ text, datum = .string text) ∧
        datum.convert? kind = infinity? (decide (number < 0)) kind)) ∧
    ∀ {layout : Layout}, 0 < layout.stringWidth →
      ∀ {type : DataType}, type.elementKind? = some kind → ∀ value : Value,
        ∃ record, layout.write type value = .ok record ∧
          record.bytes.length = record.count * layout.slotWidth (.ofKind kind) ∧
          ∀ place < record.count, ∃ source result, value.IsSource type place source ∧
            source.convert? kind = some result ∧
            readSlot (.ofKind kind) kind
              (slotAt (layout.slotWidth (.ofKind kind)) place record.bytes) = some result ∧
            ∀ number, source.Denotes number →
              (result.isFiniteFloat = true ↔ |number| < 2 ^ 1024 - 2 ^ 970) := by
  rw [← limit_binary64]
  constructor
  · intro datum number denotes
    have converted := denotes.converted floating
    exact ⟨converted.isFiniteFloat_iff, fun beyond =>
      ⟨denotes.exists_text beyond, converted.eq_infinity? beyond⟩⟩
  · intro layout wide type carries value
    obtain ⟨record, written, whole, slots⟩ :=
      exists_write_sources wide carries (holds_of_floating floating) value
    refine ⟨record, written, whole, fun place inside => ?_⟩
    obtain ⟨source, result, isSource, converted, isResult⟩ := slots place inside
    refine ⟨source, result, isSource, converted, isResult, fun number denotes => ?_⟩
    simpa [converted] using (denotes.converted floating).isFiniteFloat_iff

/-- A literal between blanks is finite in a narrow slot. -/
theorem write_floating_literal :
    let layout : Layout := ⟨40⟩
    let type := DataType.scalar .float32
    let datum := Scalar.string " 25e2 "
    0 < layout.stringWidth ∧ type.elementKind? = some .float32 ∧ datum.Denotes 2500 ∧
      |(2500 : ℚ)| < 2 ^ 1024 - 2 ^ 970 ∧
      (∀ result, datum.convert? .float32 = some result → result.isFiniteFloat = true) ∧
      ∃ record, layout.write type (.scalar datum) = .ok record ∧ record.count = 1 ∧
        ∃ result, readSlot .float .float32 (slotAt 4 0 record.bytes) = some result ∧
          result.isFiniteFloat = true := by
  intro layout type datum
  have wide : 0 < layout.stringWidth := by decide
  have carries : type.elementKind? = some .float32 := rfl
  have isLiteral : IsLiteral (Text.trim " 25e2 ".toList) 2500 := by
    have number : (digitsValue ['2', '5'] * 10 ^ digitsValue ['2'] : ℚ) = 2500 := by
      rw [show digitsValue ['2', '5'] = 25 from rfl, show digitsValue ['2'] = 2 from rfl]
      norm_num
    rw [← number]
    exact @isLiteral_scientific ['2', '5'] ['2'] (by decide) (by decide) (by decide) (by decide)
  have within : |(2500 : ℚ)| < 2 ^ 1024 - 2 ^ 970 := by
    rw [← limit_binary64]
    exact lt_limit_binary64 (by norm_num)
  have converted : datum.convert? .float32 = some (.float32 (.ofBits 0x451C4000)) := by
    decide +kernel
  have written : layout.write type (.scalar datum) =
      .ok ⟨.float, 1, [0x00, 0x40, 0x1C, 0x45], false⟩ := by
    have fits : (Value.scalar datum).coerce? type =
        some (.scalar (.float32 (.ofBits 0x451C4000))) := by
      simp only [type, Value.coerce?, Value.coerceScalar?, converted, Option.map_some]
    simp only [write, fits]
    rfl
  obtain ⟨each, records⟩ := write_floating (.inl rfl : Kind.float32 = .float32 ∨ _)
  obtain ⟨record, alsoWritten, -, slots⟩ := records wide carries (.scalar datum)
  obtain rfl := Except.ok.inj (written.symm.trans alsoWritten)
  obtain ⟨source, result, isSource, -, read, finite⟩ := slots 0 Nat.one_pos
  obtain rfl : datum = source := by
    change Value.IsSource (.scalar .float32) (.scalar (.string " 25e2 ")) 0 source at isSource
    cases isSource with
    | scalar sole =>
        cases sole
        rfl
  have denotes : datum.Denotes 2500 := .text isLiteral
  exact ⟨wide, carries, denotes, within, (each denotes).1.mpr within, _, written, rfl, result, read,
    (finite 2500 denotes).mpr within⟩

/-- The literal 1e400 writes a finite number, but is an infinity in both kinds, and is sent as
one. -/
theorem infinity_of_literal :
    (Scalar.string "1e400").Denotes (10 ^ 400) ∧
      (Scalar.string "1e400").convert? .float64 = some (.float64 (.infinity false)) ∧
      (Scalar.string "1e400").convert? .float32 = some (.float32 (.infinity false)) ∧
      (⟨40⟩ : Layout).write (.scalar .float64) (.scalar (.string "1e400")) =
        .ok ⟨.double, 1, [0, 0, 0, 0, 0, 0, 0xF0, 0x7F], false⟩ ∧
      readSlot .double .float64 [0, 0, 0, 0, 0, 0, 0xF0, 0x7F] =
        some (.float64 (.infinity false)) := by
  refine ⟨.text ?_, rfl, rfl, rfl, by decide⟩
  have number : (digitsValue ['1'] * 10 ^ digitsValue ['4', '0', '0'] : ℚ) = 10 ^ 400 := by
    rw [show digitsValue ['1'] = 1 from rfl, show digitsValue ['4', '0', '0'] = 400 from rfl,
      Nat.cast_one, one_mul]
  rw [← number]
  exact @isLiteral_scientific ['1'] ['4', '0', '0'] (by decide) (by decide) (by decide) (by decide)

end Layout

end Legacy

end ProcessImage
