import ProcessImage.Proofs.Legacy.Emptiness
import ProcessImage.Proofs.Legacy.Truncation
import ProcessImage.Settings

/-!
# Integers in slots

An integer that travels as bytes comes back from its record, as one that its slot cannot
hold is refused.  An integer of 64 bits travels as decimal text, which is cut where it has
more bytes than a text slot.  What comes back then is another integer, the one that is left
when as many digits as are missing are divided off; or no value at all, where a sign is all
that is left of one.  In both cases the record says that a text was cut.
-/

namespace ProcessImage.Legacy

open Text

/-! ## One integer -/

namespace Layout

/-- Whether an integer travels as text that has more bytes than a text slot. -/
def ExceedsSlot (layout : Layout) : Scalar → Prop
  | .integer kind number _ =>
      Tag.ofKind (.integer kind) = .string ∧
        layout.stringWidth < (encode (writeInt number)).length
  | _ => False

/-- Whether the sign of an integer is all that its slot keeps. -/
def KeepsSign (layout : Layout) : Scalar → Prop
  | .integer kind number member =>
      layout.ExceedsSlot (.integer kind number member) ∧ number < 0 ∧ layout.stringWidth = 1
  | _ => False

theorem KeepsSign.exceedsSlot {layout : Layout} {datum : Scalar}
    (keeps : layout.KeepsSign datum) : layout.ExceedsSlot datum := by
  cases datum with
  | integer kind number member => exact keeps.1
  | bool | float32 | float64 | string => exact keeps.elim

/-- What comes back of an integer, if anything does.  Where its text was cut, that is another
integer. -/
inductive Leaves (layout : Layout) : Scalar → Scalar → Prop
  | whole {datum : Scalar} (fits : ¬ layout.ExceedsSlot datum) : Leaves layout datum datum
  | cut {kind : IntegerKind} {number : Int} {member : kind.Contains number}
      (exceeds : layout.ExceedsSlot (.integer kind number member))
      (digit : ¬ layout.KeepsSign (.integer kind number member)) {divisor : Nat}
      (missing : divisor = 10 ^ ((encode (writeInt number)).length - layout.stringWidth))
      (left : kind.Contains (number.tdiv divisor)) (other : number.tdiv divisor ≠ number) :
      Leaves layout (.integer kind number member) (.integer kind (number.tdiv divisor) left)

end Layout

variable {layout : Layout} {kind : IntegerKind}

/-- The slot of an integer that travels as text holds its first characters. -/
theorem slotText_fill_writeInt (width : Nat) (number : Int) :
    slotText (fill width (encode (writeInt number))) =
      String.ofList ((writeInt number).toList.take width) :=
  slotText_fill_of_single (fun _ => utf8Size_of_mem_writeInt) (zero_not_mem_writeInt number)

theorem length_encode_writeInt (number : Int) :
    (encode (writeInt number)).length = (writeInt number).toList.length :=
  byteCount_of_single fun _ => utf8Size_of_mem_writeInt

/-- A sign alone is no integer. -/
theorem convert?_lone_sign (kind : IntegerKind) :
    (Scalar.string (String.ofList ['-'])).convert? (.integer kind) = none := by
  have lone : (Scalar.string (String.ofList ['-'])).integral? = none := by decide
  simp [Scalar.convert?, Scalar.kind, lone]

/-- An integer whose text was cut is read as what the first characters write. -/
theorem readSlot_of_exceedsSlot (wide : 0 < layout.stringWidth) {number : Int}
    {member : kind.Contains number} (exceeds : layout.ExceedsSlot (.integer kind number member)) :
    (layout.KeepsSign (.integer kind number member) ∧
        readSlot .string (.integer kind)
          (fill layout.stringWidth (encode (writeInt number))) = none) ∨
      ∃ back, readSlot .string (.integer kind)
          (fill layout.stringWidth (encode (writeInt number))) = some back ∧
        layout.Leaves (.integer kind number member) back := by
  have long := exceeds.2
  rw [length_encode_writeInt] at long
  simp only [readSlot, slotText_fill_writeInt]
  by_cases sign : number < 0 ∧ layout.stringWidth = 1
  · refine .inl ⟨⟨exceeds, sign⟩, ?_⟩
    obtain ⟨magnitude, rfl⟩ : ∃ magnitude : Nat, number = -(magnitude : Int) :=
      ⟨number.natAbs, by omega⟩
    rw [sign.2, writeInt_neg (by omega), List.take_succ_cons, List.take_zero]
    exact convert?_lone_sign kind
  · have kept := take_writeInt wide (by omega) (Nat.le_of_lt long)
    generalize isDivisor : 10 ^ ((writeInt number).toList.length - layout.stringWidth) = divisor
      at kept
    have left := member.tdiv divisor
    refine .inr ⟨.integer kind _ left, ?_,
      .cut exceeds (fun keeps => sign keeps.2) ?_ left fun same => ?_⟩
    · rw [kept, String.ofList_toList, Scalar.convert?_writeInt left]
    · rw [length_encode_writeInt, isDivisor]
    · -- A text that was cut is shorter than the one of the same integer.
      have lengths := congrArg List.length kept
      rw [same, List.length_take] at lengths
      omega

/-- The slot of an integer that has bytes is read as what comes back of it, unless it keeps a
sign alone. -/
theorem readSlot_integer (wide : 0 < layout.stringWidth) {datum : Scalar}
    (isKind : datum.kind = .integer kind) {bytes : List UInt8}
    (isBytes : slotBytes (.ofKind (.integer kind)) datum = some bytes) :
    (layout.KeepsSign datum ∧ readSlot (.ofKind (.integer kind)) (.integer kind)
        (fill (layout.slotWidth (.ofKind (.integer kind))) bytes) = none) ∨
      ∃ back, readSlot (.ofKind (.integer kind)) (.integer kind)
          (fill (layout.slotWidth (.ofKind (.integer kind))) bytes) = some back ∧
        layout.Leaves datum back := by
  cases datum with
  | bool | float32 | float64 | string => cases isKind
  | integer other number member =>
      obtain rfl : other = kind := Kind.integer.inj isKind
      by_cases exceeds : layout.ExceedsSlot (.integer other number member)
      · rw [exceeds.1] at isBytes ⊢
        obtain rfl : encode (writeInt number) = bytes := Option.some.inj isBytes
        exact readSlot_of_exceedsSlot wide exceeds
      · have accepted : ¬ ExceedsChoice (.integer other number member) :=
          mt slotBytes_eq_none_iff.mpr (by simp [Scalar.kind, isBytes])
        have holds : layout.Holds (.integer other number member) := by
          cases other with
          | char8 | int8 | uint8 | int16 | uint16 | int32 => trivial
          | uint32 => exact Int.not_lt.mp accepted
          | int64 | uint64 => exact Nat.not_lt.mp fun long => exceeds ⟨rfl, long⟩
        obtain ⟨_, same, _, back⟩ := holds.returns
        obtain rfl := Option.some.inj (isBytes.symm.trans same)
        exact .inr ⟨_, back, .whole exceeds⟩

/-! ## Records of integers -/

/-- The slots of integers that have bytes are read as what comes back of each, unless one of
them keeps a sign alone. -/
theorem mapM_readSlot_integers (wide : 0 < layout.stringWidth) {data : List Scalar}
    (kinds : ∀ datum ∈ data, datum.kind = .integer kind) {rows : List (List UInt8)}
    (isRows : data.mapM (slotBytes (.ofKind (.integer kind))) = some rows) :
    ((∃ datum ∈ data, layout.KeepsSign datum) ∧
        (rows.map (fill (layout.slotWidth (.ofKind (.integer kind))))).mapM
          (readSlot (.ofKind (.integer kind)) (.integer kind)) = none) ∨
      ∃ back, (rows.map (fill (layout.slotWidth (.ofKind (.integer kind))))).mapM
          (readSlot (.ofKind (.integer kind)) (.integer kind)) = some back ∧
        List.Forall₂ layout.Leaves data back := by
  induction data generalizing rows with
  | nil =>
      cases isRows
      exact .inr ⟨[], by simp, .nil⟩
  | cons datum rest ih =>
      rw [List.forall_mem_cons] at kinds
      simp only [List.mapM_cons, Option.bind_eq_bind, Option.bind_eq_some_iff, Option.pure_def,
        Option.some.injEq] at isRows
      obtain ⟨bytes, isBytes, others, isOthers, rfl⟩ := isRows
      simp only [List.exists_mem_cons_iff, List.map_cons, List.mapM_cons]
      rcases readSlot_integer wide kinds.1 isBytes with ⟨keeps, lost⟩ | ⟨back, read, leaves⟩
      · exact .inl ⟨.inl keeps, by simp [lost]⟩
      · rcases ih kinds.2 isOthers with ⟨keeps, lost⟩ | ⟨backs, reads, leave⟩
        · exact .inl ⟨.inr keeps, by simp [read, lost]⟩
        · exact .inr ⟨back :: backs, by simp [read, reads], .cons leaves leave⟩

/-- Integers that fit their slots come back as they are. -/
theorem eq_of_forall₂_leaves {data back : List Scalar}
    (leave : List.Forall₂ layout.Leaves data back)
    (fit : ∀ datum ∈ data, ¬ layout.ExceedsSlot datum) : back = data := by
  induction leave with
  | nil => rfl
  | cons leaves _ ih =>
      rw [List.forall_mem_cons] at fit
      cases leaves with
      | whole => rw [ih fit.2]
      | cut exceeds => exact absurd exceeds fit.1

/-- The rows of integers that travel as text are longer than a slot where the integers exceed
it. -/
theorem exists_long_row_iff {data : List Scalar}
    (kinds : ∀ datum ∈ data, datum.kind = .integer kind) {rows : List (List UInt8)}
    (isRows : data.mapM (slotBytes (.ofKind (.integer kind))) = some rows) :
    (Tag.ofKind (.integer kind) = .string ∧
        ∃ row ∈ rows, layout.slotWidth (.ofKind (.integer kind)) < row.length) ↔
      ∃ datum ∈ data, layout.ExceedsSlot datum := by
  have exceeds (datum : Scalar) (inside : datum ∈ data) :
      layout.ExceedsSlot datum ↔ Tag.ofKind (.integer kind) = .string ∧
        layout.stringWidth < (encode datum.text).length := by
    have isKind := kinds datum inside
    cases datum with
    | integer other number member =>
        obtain rfl : other = kind := Kind.integer.inj isKind
        rfl
    | bool | float32 | float64 | string => cases isKind
  by_cases travels : Tag.ofKind (.integer kind) = .string
  · rw [travels, mapM_slotBytes_string] at isRows
    obtain rfl := Option.some.inj isRows
    simp only [travels, true_and, List.mem_map, exists_exists_and_eq_and, Layout.slotWidth]
    refine exists_congr fun datum => and_congr_right fun inside => ?_
    rw [exceeds datum inside, and_iff_right travels]
  · refine iff_of_false (fun both => travels both.1) ?_
    rintro ⟨datum, inside, exceed⟩
    exact travels ((exceeds datum inside).mp exceed).1

namespace Layout

/-- There is always a record for a value in a type of integers.  If it has bytes, it says
that a text was cut exactly when one of the integers exceeds its slot.  It is read back as
no value where one of them keeps a sign alone, and otherwise as what comes back of each;
which is the value in the type when none of them was cut. -/
theorem read_write_integers {settings : Settings} (valid : settings.validate = .ok ())
    {type : DataType} {kind : IntegerKind} (carries : type.elementKind? = some (.integer kind))
    (value : Value) :
    let layout := settings.layout
    ∃ record, layout.write type value = .ok record ∧ (record.isEmpty = false →
      ∃ coerced shown, value.coerce? type = some coerced ∧
        record.count = (dataOf coerced).length ∧
        layout.read type record.count (some record.bytes) = .ok shown ∧
        (record.truncated = true ↔ ∃ datum ∈ dataOf coerced, layout.ExceedsSlot datum) ∧
        (record.truncated = false → shown = coerced) ∧
        ((∃ datum ∈ dataOf coerced, layout.KeepsSign datum) ∧ shown = .empty ∨
          ∃ back, shown = assemble type back ∧
            List.Forall₂ layout.Leaves (dataOf coerced) back)) := by
  intro layout
  have wide : 0 < layout.stringWidth := Settings.stringWidth_pos valid
  have tagged : tagOfType type = .ok (.ofKind (.integer kind)) :=
    tagOfType_eq_ok_iff.mpr ⟨_, carries, rfl⟩
  obtain ⟨record, written, -⟩ := exists_write_isEmpty_iff wide tagged value
  refine ⟨record, written, fun present => ?_⟩
  obtain ⟨other, coerced, rows, alsoCarries, fits, isRows, -, -⟩ :=
    exists_rows_of_write written present
  obtain rfl := Option.some.inj (carries.symm.trans alsoCarries)
  obtain ⟨same, alsoWritten, -, count, -, truncated, read⟩ :=
    exists_record_of_rows (slotWidth_pos wide _) carries fits isRows
  obtain rfl := Except.ok.inj (written.symm.trans alsoWritten)
  obtain ⟨assembled, kinds⟩ := assemble_dataOf carries fits
  rw [exists_long_row_iff kinds isRows] at truncated
  have fit (uncut : record.truncated = false) :
      ∀ datum ∈ dataOf coerced, ¬ layout.ExceedsSlot datum := by
    have none := mt truncated.mpr (Bool.eq_false_iff.mp uncut)
    exact fun datum inside exceeds => none ⟨datum, inside, exceeds⟩
  refine ⟨coerced, _, fits, count, read, truncated, ?_⟩
  rcases mapM_readSlot_integers wide kinds isRows with ⟨keeps, lost⟩ | ⟨back, reads, leave⟩
  · rw [lost]
    refine ⟨fun uncut => ?_, .inl ⟨keeps, rfl⟩⟩
    obtain ⟨datum, inside, keepsSign⟩ := keeps
    exact absurd keepsSign.exceedsSlot (fit uncut datum inside)
  · rw [reads]
    refine ⟨fun uncut => ?_, .inr ⟨back, rfl, leave⟩⟩
    obtain rfl := eq_of_forall₂_leaves leave (fit uncut)
    exact assembled

/-- Two set points whose digits take up their slots come back as they are. -/
theorem read_write_integers_set_points :
    let settings : Settings := { stringSlotWidth := 5 }
    let type := DataType.scalarArray (.integer .int64)
    let value := Value.ofScalars (.integer .int64)
      [.integer .int64 12345 (by decide), .integer .int64 (-9876) (by decide)]
    settings.validate = .ok () ∧ type.elementKind? = some (.integer .int64) ∧
      ∃ record, settings.layout.write type value = .ok record ∧ record.isEmpty = false ∧
        record.count = 2 ∧ settings.layout.read type 2 (some record.bytes) = .ok value := by
  intro settings type value
  have valid : settings.validate = .ok () := rfl
  have carries : type.elementKind? = some (.integer .int64) := rfl
  obtain ⟨record, written, comesBack⟩ := read_write_integers valid carries value
  have isRecord : record = ⟨.string, 2,
      [0x31, 0x32, 0x33, 0x34, 0x35, 0x2D, 0x39, 0x38, 0x37, 0x36], false⟩ :=
    Except.ok.inj (written.symm.trans rfl)
  obtain ⟨coerced, shown, fits, -, read, -, uncut, -⟩ := comesBack (by rw [isRecord]; rfl)
  obtain rfl : value = coerced := Option.some.inj fits
  rw [uncut (by rw [isRecord])] at read
  refine ⟨valid, carries, record, written, by rw [isRecord]; rfl, by rw [isRecord], ?_⟩
  rwa [show record.count = 2 by rw [isRecord]] at read

/-- In slots of three bytes the set point 12345 is sent, and comes back as 123. -/
theorem set_point_loses_digits :
    let settings : Settings := { stringSlotWidth := 3 }
    let type := DataType.scalar (.integer .int64)
    let record : Record := ⟨.string, 1, [0x31, 0x32, 0x33], true⟩
    settings.validate = .ok () ∧
      settings.layout.write type (.scalar (.integer .int64 12345 (by decide))) = .ok record ∧
      record.isEmpty = false ∧
      settings.layout.read type record.count (some record.bytes) =
        .ok (.scalar (.integer .int64 123 (by decide))) :=
  ⟨rfl, rfl, rfl, rfl⟩

end Layout

end ProcessImage.Legacy
