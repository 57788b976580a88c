import ProcessImage.Proofs.Ieee.Truncation
import ProcessImage.Proofs.Scalar.Floating
import ProcessImage.Value

/-!
# Numbers in integer kinds

A datum that stands for a number, and is no text, is converted to an integer kind as the
number without its fraction, where that belongs to the kind.  Nothing else is converted.

Truth values and integers have no fraction, so that they are converted as they are, and
their texts with blanks around them are converted alike.  What is an integer of 64 bits to
begin with is the same integer when it is converted.
-/

namespace ProcessImage.Scalar

open Ieee

variable {datum : Scalar} {number : ℚ} {whole : ℤ}

/-! ## Integers of a kind -/

theorem ofInt?_eq_some_iff {kind : IntegerKind} {result : Scalar} :
    ofInt? kind whole = some result ↔ ∃ member, result = integer kind whole member := by
  unfold ofInt?
  split
  next member => simp [member, eq_comm]
  next other => simp [other]

theorem ofInt?_eq_none_iff {kind : IntegerKind} :
    ofInt? kind whole = none ↔ ¬ kind.Contains whole := by
  simp [ofInt?]

/-- No kind has integers of more than 64 bits. -/
theorem abs_lt_of_contains {kind : IntegerKind} (member : kind.Contains whole) :
    |whole| < 2 ^ 64 := by
  have bounds := kind.bounds
  unfold IntegerKind.Contains at member
  rw [abs_lt]
  omega

/-- A wide number is an integer of a kind when its integer part is. -/
theorem integerPart?_bind_ofInt? {wide : Binary64} (isNumber : wide.rational? = some number)
    (kind : IntegerKind) :
    (integerPart? wide).bind (ofInt? kind) = ofInt? kind (towardZero number) := by
  rcases integerPart?_cases isNumber with read | ⟨unread, beyond⟩
  · rw [read, Option.bind_some]
  · rw [unread, Option.bind_none, eq_comm, ofInt?_eq_none_iff]
    exact fun member => (abs_lt_of_contains member).not_ge beyond

/-! ## Conversions -/

theorem denotes_float64_iff {wide : Binary64} :
    (float64 wide).Denotes number ↔ wide.rational? = some number :=
  ⟨fun | .float64 isNumber => isNumber, .float64⟩

theorem convert?_integer_of_ne {kind : IntegerKind} (other : datum.kind ≠ .integer kind) :
    datum.convert? (.integer kind) = datum.integral?.bind (ofInt? kind) :=
  if_neg other

/-- An integer is converted as it is. -/
theorem convert?_integer_integer {source : IntegerKind} (member : source.Contains whole)
    (kind : IntegerKind) :
    (integer source whole member).convert? (.integer kind) = ofInt? kind whole := by
  by_cases same : source = kind
  · subst same
    exact (if_pos rfl).trans (ofInt?_eq_some_iff.mpr ⟨member, rfl⟩).symm
  · exact if_neg fun isKind => same (Kind.integer.inj isKind)

/-- A datum that stands for a number, and is no text, is converted as its integer part. -/
theorem Denotes.convert?_integer (denotes : datum.Denotes number) (noText : datum.kind ≠ .string)
    (kind : IntegerKind) : datum.convert? (.integer kind) = ofInt? kind (towardZero number) := by
  cases denotes with
  | text => exact absurd rfl noText
  | bool truth =>
      cases truth <;> simp [convert?, Scalar.kind, integral?, toInt?, towardZero]
  | integer member => rw [towardZero_intCast, convert?_integer_integer]
  | @float32 narrow _ isNumber =>
      -- It is widened first, which keeps the number.
      rw [convert?_integer_of_ne (by simp [Scalar.kind])]
      exact integerPart?_bind_ofInt? (narrow.rational?_widened.trans isNumber) kind
  | float64 isNumber =>
      rw [convert?_integer_of_ne (by simp [Scalar.kind])]
      exact integerPart?_bind_ofInt? isNumber kind

/-- Where an integer of up to 64 bits is read, the datum stands for it. -/
theorem Denotes.toInt?_eq_some_iff (denotes : datum.Denotes number)
    (noText : datum.kind ≠ .string) (small : |whole| < 2 ^ 64) :
    datum.toInt? = some whole ↔ number = whole := by
  cases denotes with
  | text => exact absurd rfl noText
  | bool truth =>
      rw [toInt?, Option.some.injEq, ← @Int.cast_inj ℚ, Int.cast_ite, Int.cast_one, Int.cast_zero]
  | integer member => rw [toInt?, Option.some.injEq, Int.cast_inj]
  | @float32 narrow _ isNumber =>
      exact exactInteger?_eq_some_iff (narrow.rational?_widened.trans isNumber) small
  | float64 isNumber => exact exactInteger?_eq_some_iff isNumber small

/-- What stands for no number, and is no text, has no integer part. -/
theorem integral?_of_not_denotes (noText : datum.kind ≠ .string)
    (noNumber : ∀ number, ¬ datum.Denotes number) :
    datum.integral? = none ∧ datum.toInt? = none := by
  cases datum with
  | string => exact absurd rfl noText
  | bool truth => exact absurd (.bool truth) (noNumber _)
  | integer kind whole member => exact absurd (.integer member) (noNumber _)
  | float32 narrow =>
      cases narrow with
      | nan | infinity => exact ⟨rfl, rfl⟩
      | finite => exact absurd (.float32 rfl) (noNumber _)
  | float64 wide =>
      cases wide with
      | nan | infinity => exact ⟨rfl, rfl⟩
      | finite => exact absurd (.float64 rfl) (noNumber _)

theorem convert?_integer_of_not_denotes (noText : datum.kind ≠ .string)
    (noNumber : ∀ number, ¬ datum.Denotes number) (kind : IntegerKind) :
    datum.convert? (.integer kind) = none := by
  have other : datum.kind ≠ .integer kind := by
    rintro isKind
    cases datum with
    | integer _ _ member => exact noNumber _ (.integer member)
    | _ => cases isKind
  rw [convert?_integer_of_ne other, (integral?_of_not_denotes noText noNumber).1, Option.bind_none]

/-! ## Fractions -/

/-- What is read from a value is what is read from its datum, if it has 64 bits. -/
theorem toInt64?_scalar :
    (Value.scalar datum).toInt64? = some whole ↔
      datum.toInt? = some whole ∧ IntegerKind.int64.Contains whole := by
  simp [Value.toInt64?, Value.scalar?, Option.filter_eq_some_iff]

/-- An integer of 64 bits is read exactly from what stands for it. -/
theorem toInt64?_eq_some_iff (noText : datum.kind ≠ .string) :
    (Value.scalar datum).toInt64? = some whole ↔
      datum.Denotes whole ∧ IntegerKind.int64.Contains whole := by
  rw [toInt64?_scalar]
  refine and_congr_left fun member => ?_
  have small := abs_lt_of_contains member
  constructor
  · intro read
    by_cases number : ∃ number, datum.Denotes number
    · obtain ⟨number, denotes⟩ := number
      rwa [(denotes.toInt?_eq_some_iff noText small).mp read] at denotes
    · rw [(integral?_of_not_denotes noText (not_exists.mp number)).2] at read
      cases read
  · exact fun denotes => (denotes.toInt?_eq_some_iff noText small).mpr rfl

theorem convert?_integer_eq_some_iff (noText : datum.kind ≠ .string) {kind : IntegerKind}
    {result : Scalar} :
    datum.convert? (.integer kind) = some result ↔
      ∃ number member, datum.Denotes number ∧
        result = integer kind (towardZero number) member := by
  constructor
  · intro converted
    by_cases number : ∃ number, datum.Denotes number
    · obtain ⟨number, denotes⟩ := number
      rw [denotes.convert?_integer noText, ofInt?_eq_some_iff] at converted
      obtain ⟨member, isResult⟩ := converted
      exact ⟨number, member, denotes, isResult⟩
    · rw [convert?_integer_of_not_denotes noText (not_exists.mp number)] at converted
      cases converted
  · rintro ⟨number, member, denotes, rfl⟩
    rw [denotes.convert?_integer noText, ofInt?_eq_some_iff]
    exact ⟨member, rfl⟩

/-- A datum that is no text is converted to an integer kind exactly where it stands for a
number whose integer part belongs to the kind, and then as that integer part.  An integer of
64 bits is read from it exactly where it stands for one, so that it is converted to that
integer, and none is read where it stands for a number with a fraction. -/
theorem convert?_truncates (datum : Scalar) (noText : datum.kind ≠ .string) :
    (∀ kind result, datum.convert? (.integer kind) = some result ↔
      ∃ number member, datum.Denotes number ∧
        result = integer kind (towardZero number) member) ∧
    (∀ kind, datum.convert? (.integer kind) = none ↔
      ∀ number, datum.Denotes number → ¬ kind.Contains (towardZero number)) ∧
    (∀ whole, (Value.scalar datum).toInt64? = some whole ↔
      datum.Denotes whole ∧ IntegerKind.int64.Contains whole) ∧
    (∀ whole, (Value.scalar datum).toInt64? = some whole →
      ∃ member, datum.convert? (.integer .int64) = some (integer .int64 whole member)) ∧
    (∀ number, datum.Denotes number → Int.fract number ≠ 0 →
      (Value.scalar datum).toInt64? = none) := by
  refine ⟨fun kind result => convert?_integer_eq_some_iff noText, fun kind => ?_,
    fun whole => toInt64?_eq_some_iff noText, fun whole read => ?_,
    fun number denotes fraction => ?_⟩
  · constructor
    · intro refused number denotes
      rwa [denotes.convert?_integer noText, ofInt?_eq_none_iff] at refused
    · intro beyond
      rw [Option.eq_none_iff_forall_ne_some]
      intro result converted
      obtain ⟨number, member, denotes, -⟩ := (convert?_integer_eq_some_iff noText).mp converted
      exact beyond number denotes member
  · obtain ⟨denotes, member⟩ := (toInt64?_eq_some_iff noText).mp read
    refine ⟨member, ?_⟩
    rw [denotes.convert?_integer noText, towardZero_intCast]
    exact ofInt?_eq_some_iff.mpr ⟨member, rfl⟩
  · rw [Option.eq_none_iff_forall_ne_some]
    intro whole read
    obtain ⟨isRead, member⟩ := toInt64?_scalar.mp read
    rw [denotes.toInt?_eq_some_iff noText (abs_lt_of_contains member)] at isRead
    rw [isRead, Int.fract_intCast] at fraction
    exact fraction rfl

/-- Beyond the end of 32 bits by a half, a number still has an integer part of 32 bits.  It has
none without a sign, and it is not the integer part. -/
theorem convert?_truncates_half :
    let half : Scalar := float64 (.finite true ⟨1054 * 2 ^ 52 + 2 ^ 20, by decide⟩)
    half.kind ≠ .string ∧ half.Denotes (-(4294967297 / 2)) ∧
      (∃ member, half.convert? (.integer .int32) =
        some (integer .int32 (-2147483648) member)) ∧
      half.convert? (.integer .uint32) = none ∧ (Value.scalar half).toInt64? = none := by
  intro half
  have noText : half.kind ≠ .string := nofun
  have magnitude : binary64.magnitude (1054 * 2 ^ 52 + 2 ^ 20) = 4294967297 / 2 := by
    refine (Format.magnitude_normal (by decide) (by decide : 1054 ≠ 0)
      (by decide : 2 ^ 20 < _)).trans ?_
    norm_num [Format.binade, Format.bias, binary64]
  have denotes : half.Denotes (-(4294967297 / 2)) :=
    denotes_float64_iff.mpr (congrArg (fun magnitude => some (signed true magnitude)) magnitude)
  have integerPart : towardZero (-(4294967297 / 2)) = -2147483648 := by
    norm_num [towardZero, Int.ceil_eq_iff]
  obtain ⟨converted, refused, -, -, fraction⟩ := convert?_truncates half noText
  refine ⟨noText, denotes, ⟨by decide, ?_⟩, ?_, fraction _ denotes ?_⟩
  · rw [converted]
    refine ⟨_, by rw [integerPart]; decide, denotes, ?_⟩
    simp only [integerPart]
  · rw [refused]
    intro number other
    obtain rfl := Option.some.inj
      ((denotes_float64_iff.mp denotes).symm.trans (denotes_float64_iff.mp other))
    rw [integerPart]
    decide
  · norm_num [Int.fract]

/-! ## Exact integers -/

/-- What stands for an integer without rounding is written as that integer, which has a
kind. -/
theorem Denotes.text_of_exact (denotes : datum.Denotes whole)
    (exact : datum.kind = .bool ∨ datum.kind.isInteger = true) :
    datum.text = Text.writeInt whole ∧ ∃ kind : IntegerKind, kind.Contains whole := by
  -- What the datum stands for is any number at first, so that its kind can tell which one.
  generalize same : (whole : ℚ) = number at denotes
  cases denotes with
  | bool truth =>
      have isWhole : whole = if truth then 1 else 0 := by
        rw [← @Int.cast_inj ℚ, same, Int.cast_ite, Int.cast_one, Int.cast_zero]
      subst isWhole
      exact ⟨by cases truth <;> decide, .uint8, by cases truth <;> decide⟩
  | @integer kind number member =>
      obtain rfl := Int.cast_inj.mp same
      exact ⟨rfl, kind, member⟩
  | float32 | float64 | text => simp [Scalar.kind, Kind.isInteger] at exact

/-- The text of an integer is converted as the integer, whatever blanks are around it. -/
theorem convert?_integer_string {source : IntegerKind} (member : source.Contains whole)
    {text : String} (trimmed : Text.trim text.toList = (Text.writeInt whole).toList)
    (kind : IntegerKind) : (string text).convert? (.integer kind) = ofInt? kind whole := by
  have isWritten : (string text).integral? = (string (Text.writeInt whole)).integral? := by
    simp only [integral?, trimmed, Text.trim_writeInt]
  rw [convert?_integer_of_ne (by simp [Scalar.kind]), isWritten, integral?_writeInt member,
    Option.bind_some]

/-- A truth value or an integer is converted to an integer kind exactly where its number
belongs to the kind, and then it is that number.  Its text is converted alike, whatever blanks
are around it. -/
theorem convert?_integer_exact (denotes : datum.Denotes whole)
    (exact : datum.kind = .bool ∨ datum.kind.isInteger = true) (kind : IntegerKind) :
    ((datum.convert? (.integer kind)).isSome = true ↔ kind.Contains whole) ∧
    (∀ result, datum.convert? (.integer kind) = some result →
      result.kind = .integer kind ∧ result.toInt? = some whole) ∧
    (∀ before after : List Char,
      (∀ character ∈ before ++ after, Text.isBlank character = true) →
        (string (String.ofList (before ++ (datum.text.toList ++ after)))).convert?
          (.integer kind) = datum.convert? (.integer kind)) := by
  have noText : datum.kind ≠ .string := by
    rintro isText
    simp [isText, Kind.isInteger] at exact
  obtain ⟨isText, source, member⟩ := denotes.text_of_exact exact
  rw [denotes.convert?_integer noText, towardZero_intCast]
  refine ⟨?_, fun result converted => ?_, fun before after blank => ?_⟩
  · rw [Option.isSome_iff_ne_none, ne_eq, ofInt?_eq_none_iff, not_not]
  · obtain ⟨within, rfl⟩ := ofInt?_eq_some_iff.mp converted
    exact ⟨rfl, rfl⟩
  · rw [List.forall_mem_append] at blank
    apply convert?_integer_string member
    rw [String.toList_ofList, Text.trim_surrounded blank.1 blank.2, isText, Text.trim_writeInt]

/-- The greatest integer without a sign is one of 64 bits, but not with a sign, also as a text
with blanks of two sorts. -/
theorem convert?_integer_exact_greatest :
    let greatest : Scalar := integer .uint64 18446744073709551615 (by decide)
    greatest.Denotes (18446744073709551615 : ℤ) ∧
      (greatest.kind = .bool ∨ greatest.kind.isInteger = true) ∧
      greatest.convert? (.integer .int64) = none ∧
      (string "\t18446744073709551615\u3000").convert? (.integer .uint64) = some greatest := by
  intro greatest
  have denotes : greatest.Denotes (18446744073709551615 : ℤ) := .integer (by decide)
  have exact : greatest.kind = .bool ∨ greatest.kind.isInteger = true := .inr rfl
  refine ⟨denotes, exact, ?_, ?_⟩
  · obtain ⟨isSome_iff, -, -⟩ := convert?_integer_exact denotes exact .int64
    rw [← Option.not_isSome_iff_eq_none, isSome_iff]
    decide
  · obtain ⟨-, -, surrounded⟩ := convert?_integer_exact denotes exact .uint64
    have isText : "\t18446744073709551615\u3000" =
        String.ofList (['\t'] ++ (greatest.text.toList ++ ['\u3000'])) := by decide +kernel
    have blank : ∀ character ∈ ['\t'] ++ ['\u3000'], Text.isBlank character = true := by
      intro character isOne
      rcases List.mem_pair.mp isOne with rfl | rfl <;> rfl
    rw [isText, surrounded _ _ blank]
    rfl

end ProcessImage.Scalar
