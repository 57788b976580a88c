import ProcessImage.Legacy.Slot
import ProcessImage.Proofs.Ieee.Bits
import ProcessImage.Proofs.Text.Decimal
import ProcessImage.Proofs.Text.Utf8

/-!
# Data that survive in slots

A datum that its slot can hold is read back as it was.  Slots hold all data of
most kinds.  They hold unsigned integers up to 65535, and integers of 64 bits and
texts as far as their bytes do not exceed the width of a text slot; a text must
not have the character that ends it.
-/

namespace ProcessImage.Legacy

/-! ## Numbers as bytes -/

@[simp]
theorem length_littleEndian (count number : Nat) : (littleEndian count number).length = count := by
  induction count generalizing number with
  | zero => rfl
  | succ count ih => simp [littleEndian, ih]

/-- Bytes of a number are read as that number, as far as they hold it. -/
theorem ofLittleEndian_littleEndian (count number : Nat) :
    ofLittleEndian (littleEndian count number) = number % Nat.pow 256 count := by
  induction count generalizing number with
  | zero => simp [littleEndian, ofLittleEndian, Nat.mod_one]
  | succ count ih =>
      have byte : (UInt8.ofNat (number % 256)).toNat = number % 256 :=
        UInt8.toNat_ofNat_of_lt' (Nat.mod_lt _ (by decide))
      rw [littleEndian, ofLittleEndian, ih, byte, Nat.pow_eq, Nat.pow_eq, Nat.pow_succ',
        Nat.mod_mul]

@[simp]
theorem length_twosComplement (width : Nat) (number : Int) :
    (twosComplement width number).length = width :=
  length_littleEndian _ _

/-- Bytes of an integer stand for its remainder by the number of patterns. -/
theorem ofLittleEndian_twosComplement (width : Nat) (number : Int) :
    (ofLittleEndian (twosComplement width number) : Int) = number % (Nat.pow 256 width : Nat) := by
  have positive : 0 < Nat.pow 256 width := Nat.pow_pos (by decide)
  have low := Int.emod_nonneg number (Int.natCast_ne_zero.mpr (Nat.ne_of_gt positive))
  have high := Int.emod_lt_of_pos number (Int.natCast_pos.mpr positive)
  rw [twosComplement, ofLittleEndian_littleEndian, Nat.mod_eq_of_lt (by omega),
    Int.toNat_of_nonneg low]

/-- An integer is read back from its two's complement when it has a pattern of
its own. -/
theorem ofTwosComplement_twosComplement {width : Nat} {number : Int}
    (low : -(Nat.pow 256 width : Nat) ≤ 2 * number)
    (high : 2 * number < (Nat.pow 256 width : Nat)) :
    ofTwosComplement (twosComplement width number) = number := by
  rw [ofTwosComplement, ofLittleEndian_twosComplement, length_twosComplement, Int.emod_bmod]
  exact Int.bmod_eq_of_le_mul_two (by omega) (by omega)

/-- A signed integer is read back from as many bytes as its kind takes. -/
theorem ofTwosComplement_of_contains {kind : IntegerKind} {number : Int}
    (signed : kind.isSigned = true) (member : kind.Contains number) :
    ofTwosComplement (twosComplement kind.byteWidth number) = number := by
  have bounds : -(Nat.pow 256 kind.byteWidth : Nat) ≤ 2 * kind.least ∧
      2 * kind.greatest < (Nat.pow 256 kind.byteWidth : Nat) := by
    cases kind <;> first | decide | cases signed
  obtain ⟨low, high⟩ := member
  exact ofTwosComplement_twosComplement (by omega) (by omega)

/-- An integer without sign is read back from as many bytes as its kind takes. -/
theorem ofLittleEndian_of_contains {kind : IntegerKind} {number : Int}
    (unsigned : kind.isSigned = false) (member : kind.Contains number) :
    (ofLittleEndian (twosComplement kind.byteWidth number) : Int) = number := by
  have bounds : 0 ≤ kind.least ∧ kind.greatest < (Nat.pow 256 kind.byteWidth : Nat) := by
    cases kind <;> first | decide | cases unsigned
  obtain ⟨low, high⟩ := member
  rw [ofLittleEndian_twosComplement, Int.emod_eq_of_lt (by omega) (by omega)]

/-! ## Filled slots -/

/-- Every slot has room when those of texts have. -/
theorem Layout.slotWidth_pos {layout : Layout} (wide : 0 < layout.stringWidth) (tag : Tag) :
    0 < layout.slotWidth tag := by
  cases tag <;> first | exact wide | exact Nat.zero_lt_succ _

/-- Bytes that take up their slot are the slot. -/
theorem fill_of_length_eq {width : Nat} {bytes : List UInt8} (full : bytes.length = width) :
    fill width bytes = bytes := by
  simp [fill, ← full]

theorem length_fill (width : Nat) (bytes : List UInt8) : (fill width bytes).length = width := by
  simp only [fill, List.length_append, List.length_take, List.length_replicate]
  omega

/-- What stands before the padding of a slot is all that was kept, if no byte of it is
zero. -/
theorem takeWhile_fill {width : Nat} {bytes : List UInt8} (whole : 0 ∉ bytes.take width) :
    (fill width bytes).takeWhile (· ≠ 0) = bytes.take width := by
  have nonzero : ∀ byte ∈ bytes.take width, decide (byte ≠ 0) = true := by
    rintro byte inside
    rw [decide_eq_true_eq]
    rintro rfl
    exact whole inside
  have padding : (List.replicate (width - bytes.length) (0 : UInt8)).takeWhile
      (fun byte => decide (byte ≠ 0)) = [] := by
    cases width - bytes.length <;> simp [List.replicate_succ]
  rw [fill, List.takeWhile_append_of_pos nonzero, padding, List.append_nil]

/-- A text is read back from its slot when it fits and does not end early. -/
theorem slotText_fill_encode {width : Nat} {text : String}
    (fits : (Text.encode text).length ≤ width) (whole : '\x00' ∉ text.toList) :
    slotText (fill width (Text.encode text)) = text := by
  have kept : (Text.encode text).take width = Text.encode text := List.take_of_length_le fits
  have nonzero : 0 ∉ (Text.encode text).take width := by
    rw [kept, Text.zero_mem_encode_iff]
    exact whole
  rw [slotText, takeWhile_fill nonzero, kept, Text.decode_encode]

end ProcessImage.Legacy

namespace ProcessImage.Scalar

/-- An integer belongs to another kind when it lies in its range. -/
theorem convert?_integer {kind : IntegerKind} {number : Int} (member : kind.Contains number)
    (target : IntegerKind) :
    (integer kind number member).convert? (.integer target) = ofInt? target number := by
  by_cases same : kind = target
  · subst same
    simp [convert?, Scalar.kind, ofInt?, member]
  · simp [convert?, Scalar.kind, same, integral?, toInt?]

theorem ofInt?_of_contains {kind : IntegerKind} {number : Int} (member : kind.Contains number) :
    ofInt? kind number = some (integer kind number member) :=
  dif_pos member

/-- The decimal text of an integer converts to that integer. -/
theorem convert?_writeInt {kind : IntegerKind} {number : Int} (member : kind.Contains number) :
    (string (Text.writeInt number)).convert? (.integer kind) =
      some (integer kind number member) := by
  simp only [convert?, Scalar.kind, reduceCtorEq, if_false, integral?_writeInt member,
    Option.bind_some, ofInt?_of_contains member]

end ProcessImage.Scalar

namespace ProcessImage.Legacy

open Scalar

/-! ## Held data -/

/-- Whether a slot of its tag holds all of a datum. -/
def Layout.Holds (layout : Layout) : Scalar → Prop
  | .integer .uint32 number _ => number ≤ 65535
  | .integer .int64 number _ | .integer .uint64 number _ =>
      (Text.encode (Text.writeInt number)).length ≤ layout.stringWidth
  | .string text => (Text.encode text).length ≤ layout.stringWidth ∧ '\x00' ∉ text.toList
  | _ => True

/-- Whether the bytes of a datum fit its slot, from which it is read back. -/
def Layout.Returns (layout : Layout) (datum : Scalar) : Prop :=
  let tag := Tag.ofKind datum.kind
  ∃ bytes, slotBytes tag datum = some bytes ∧ bytes.length ≤ layout.slotWidth tag ∧
    readSlot tag datum.kind (fill (layout.slotWidth tag) bytes) = some datum

variable {layout : Layout}

/-- A datum is returned from bytes that take up its slot. -/
theorem Layout.returns_of_full {datum : Scalar} (bytes : List UInt8)
    (written : slotBytes (.ofKind datum.kind) datum = some bytes)
    (full : bytes.length = layout.slotWidth (.ofKind datum.kind))
    (back : readSlot (.ofKind datum.kind) datum.kind bytes = some datum) : layout.Returns datum :=
  ⟨bytes, written, Nat.le_of_eq full, by rw [fill_of_length_eq full]; exact back⟩

/-- An unsigned integer of up to 16 bits is returned, of whatever kind it is. -/
theorem returns_unsigned {kind : IntegerKind} {number : Int} (member : kind.Contains number)
    (tag : Tag.ofKind (.integer kind) = .enum) (low : 0 ≤ number) (high : number ≤ 65535) :
    layout.Returns (.integer kind number member) := by
  have inChoice : IntegerKind.uint16.Contains number := ⟨low, high⟩
  apply Layout.returns_of_full (twosComplement 2 number)
  · simp only [Scalar.kind, tag, slotBytes, convert?_integer, ofInt?_of_contains inChoice]
  · simp only [Scalar.kind, tag, length_twosComplement]
    rfl
  · have all : (twosComplement 2 number).take 2 = twosComplement 2 number :=
      List.take_of_length_le (Nat.le_of_eq (length_twosComplement 2 number))
    have value : (ofLittleEndian (twosComplement 2 number) : Int) = number :=
      ofLittleEndian_of_contains rfl inChoice
    simp only [Scalar.kind, tag, readSlot, all, value, ofInt?_of_contains inChoice,
      Option.bind_some, convert?_integer, ofInt?_of_contains member]

/-- An integer that travels as text is returned from a slot that its digits fit. -/
theorem returns_decimal {kind : IntegerKind} {number : Int} (member : kind.Contains number)
    (tag : Tag.ofKind (.integer kind) = .string)
    (fits : (Text.encode (Text.writeInt number)).length ≤ layout.stringWidth) :
    layout.Returns (.integer kind number member) := by
  refine ⟨Text.encode (Text.writeInt number), ?_, ?_, ?_⟩
  · simp only [Scalar.kind, tag, slotBytes, Scalar.text]
  · simp only [Scalar.kind, tag]
    exact fits
  · have whole := Text.zero_not_mem_writeInt number
    simp only [Scalar.kind, tag, readSlot, Layout.slotWidth, slotText_fill_encode fits whole,
      convert?_writeInt member]

/-- A text is returned from a slot that it fits, unless it ends early. -/
theorem returns_text {text : String} (fits : (Text.encode text).length ≤ layout.stringWidth)
    (whole : '\x00' ∉ text.toList) : layout.Returns (.string text) := by
  refine ⟨Text.encode text, rfl, fits, ?_⟩
  simp only [Scalar.kind, Tag.ofKind, readSlot, Layout.slotWidth, slotText_fill_encode fits whole]
  rfl

/-- A floating-point datum of four bytes is returned, a not-a-number as the one
that is written. -/
theorem returns_float32 (number : Ieee.Binary32) : layout.Returns (.float32 number) := by
  apply Layout.returns_of_full (littleEndian 4 number.toBits) rfl (length_littleEndian _ _)
  have small : number.toBits < Nat.pow 256 4 := number.toBits_lt
  simp only [Scalar.kind, Tag.ofKind, readSlot, ofLittleEndian_littleEndian,
    Nat.mod_eq_of_lt small, Ieee.Number.ofBits_toBits (by decide : 0 < Ieee.binary32.fractionBits)]

/-- A floating-point datum of eight bytes is returned, a not-a-number as the one
that is written. -/
theorem returns_float64 (number : Ieee.Binary64) : layout.Returns (.float64 number) := by
  apply Layout.returns_of_full (littleEndian 8 number.toBits) rfl (length_littleEndian _ _)
  have small : number.toBits < Nat.pow 256 8 := number.toBits_lt
  simp only [Scalar.kind, Tag.ofKind, readSlot, ofLittleEndian_littleEndian,
    Nat.mod_eq_of_lt small, Ieee.Number.ofBits_toBits (by decide : 0 < Ieee.binary64.fractionBits)]

/-- A slot that holds a datum returns it. -/
theorem Layout.Holds.returns {datum : Scalar} (holds : layout.Holds datum) :
    layout.Returns datum := by
  cases datum with
  | bool truth =>
      apply Layout.returns_of_full [if truth then 1 else 0] rfl rfl
      cases truth <;> rfl
  | float32 number => exact returns_float32 number
  | float64 number => exact returns_float64 number
  | string text => exact returns_text holds.1 holds.2
  | integer kind number member =>
      have low := member.1
      have high := member.2
      cases kind with
      | char8 =>
          apply Layout.returns_of_full (twosComplement 1 number) rfl (length_twosComplement _ _)
          have value := ofLittleEndian_of_contains rfl member
          exact (congrArg (ofInt? .char8) value).trans (ofInt?_of_contains member)
      | int8 =>
          apply Layout.returns_of_full (twosComplement 1 number) rfl (length_twosComplement _ _)
          have value := ofTwosComplement_of_contains rfl member
          exact (congrArg (ofInt? .int8) value).trans (ofInt?_of_contains member)
      | int16 =>
          apply Layout.returns_of_full (twosComplement 2 number) rfl (length_twosComplement _ _)
          have value := ofTwosComplement_of_contains rfl member
          exact (congrArg (ofInt? .int16) value).trans (ofInt?_of_contains member)
      | int32 =>
          apply Layout.returns_of_full (twosComplement 4 number) rfl (length_twosComplement _ _)
          have value := ofTwosComplement_of_contains rfl member
          exact (congrArg (ofInt? .int32) value).trans (ofInt?_of_contains member)
      | uint8 => exact returns_unsigned member rfl low (Int.le_trans high (by decide))
      | uint16 => exact returns_unsigned member rfl low high
      | uint32 => exact returns_unsigned member rfl low holds
      | int64 => exact returns_decimal member rfl holds
      | uint64 => exact returns_decimal member rfl holds

end ProcessImage.Legacy
