import ProcessImage.Proofs.Ieee.Literal
import ProcessImage.Scalar.Conversion

/-!
# Numbers in floating-point kinds

Truth values, integers, finite floating-point data and decimal literals all stand for a
rational number.  In the wide kind it is rounded; in the narrow kind it is refused where the
rounding lies beyond the greatest narrow number.

Only a literal can write a number from the limit of the wide format on.  The rounding is an
infinity there, and as infinities pass, there is one in the narrow kind too.
-/

namespace ProcessImage.Scalar

open Ieee

/-- The number that a datum stands for, if it is a finite one.  A text stands for the number
that the literal between its blanks writes. -/
inductive Denotes : Scalar → ℚ → Prop
  | bool (truth : Bool) : Denotes (.bool truth) (if truth then 1 else 0)
  | integer {kind : IntegerKind} {number : ℤ} (member : kind.Contains number) :
      Denotes (.integer kind number member) number
  | float32 {datum : Binary32} {number : ℚ} (isNumber : datum.rational? = some number) :
      Denotes (.float32 datum) number
  | float64 {datum : Binary64} {number : ℚ} (isNumber : datum.rational? = some number) :
      Denotes (.float64 datum) number
  | text {text : String} {number : ℚ} (isLiteral : IsLiteral (Text.trim text.toList) number) :
      Denotes (.string text) number

/-- Whether a datum is a finite floating-point number. -/
def isFiniteFloat : Scalar → Bool
  | float32 number => number.isFinite
  | float64 number => number.isFinite
  | _ => false

variable {datum : Scalar} {number : ℚ}

/-- A datum that stands for a number is read as what the number is rounded to. -/
theorem Denotes.exists_numeric? (denotes : datum.Denotes number) :
    ∃ rounded, datum.numeric? = some rounded ∧ rounded.IsRounding number := by
  cases denotes with
  | bool truth =>
      refine ⟨_, rfl, ?_⟩
      have isInt : (if truth then .one else .zero : Binary64) =
          .ofInt (if truth then 1 else 0) := by cases truth <;> decide +kernel
      rw [isInt]
      simpa only [Int.cast_ite, Int.cast_one, Int.cast_zero] using
        Number.isRounding_ofInt (if truth then 1 else 0)
  | integer member => exact ⟨_, rfl, Number.isRounding_ofInt _⟩
  | float32 isNumber => exact ⟨_, rfl, Number.isRounding_convert isNumber⟩
  | float64 isNumber => exact ⟨_, rfl, Number.isRounding_of_rational? isNumber⟩
  | text isLiteral => exact readNumber?_of_isLiteral isLiteral

/-- Whatever is read as a finite number stands for one. -/
theorem exists_denotes_of_numeric? {rounded : Binary64} (isNumeric : datum.numeric? = some rounded)
    (isFinite : rounded.isFinite = true) :
    ∃ number, datum.Denotes number ∧ rounded.IsRounding number := by
  have some : ∃ number, datum.Denotes number := by
    cases datum with
    | bool truth => exact ⟨_, .bool truth⟩
    | integer kind number member => exact ⟨_, .integer member⟩
    | float32 narrow =>
        obtain rfl := Option.some.inj isNumeric
        cases narrow with
        | nan | infinity => cases isFinite
        | finite negative code => exact ⟨_, .float32 rfl⟩
    | float64 wide =>
        obtain rfl := Option.some.inj isNumeric
        cases wide with
        | nan | infinity => cases isFinite
        | finite negative code => exact ⟨_, .float64 rfl⟩
    | string text =>
        obtain ⟨number, isLiteral⟩ := exists_isLiteral_of_readNumber? isNumeric isFinite
        exact ⟨number, .text isLiteral⟩
  obtain ⟨number, denotes⟩ := some
  obtain ⟨other, alsoNumeric, rounding⟩ := denotes.exists_numeric?
  obtain rfl := Option.some.inj (isNumeric.symm.trans alsoNumeric)
  exact ⟨number, denotes, rounding⟩

/-- Only a text stands for a number from the limit on. -/
theorem Denotes.exists_text (denotes : datum.Denotes number) (beyond : binary64.limit ≤ |number|) :
    ∃ text, datum = string text := by
  rw [← not_lt] at beyond
  cases denotes with
  | @text text => exact ⟨text, rfl⟩
  | bool truth =>
      have small : |(if truth then 1 else 0 : ℚ)| ≤ 2 ^ 64 := by cases truth <;> norm_num
      exact absurd (lt_limit_binary64 small) beyond
  | @integer kind number member =>
      have bounds := kind.bounds
      have small : |number| ≤ 2 ^ 64 := by
        unfold IntegerKind.Contains at member
        rw [abs_le]
        omega
      exact absurd (lt_limit_binary64 (by exact_mod_cast small)) beyond
  | float32 isNumber =>
      have within := (Number.abs_le_greatest isNumber).trans_lt binary32.greatest_lt_limit
      exact absurd (within.trans limit_binary32_lt_limit_binary64) beyond
  | float64 isNumber =>
      exact absurd ((Number.abs_le_greatest isNumber).trans_lt binary64.greatest_lt_limit) beyond

/-! ## Conversions -/

/-- The infinity of a sign in a floating-point kind. -/
def infinity? (negative : Bool) : Kind → Option Scalar
  | .float32 => some (float32 (.infinity negative))
  | .float64 => some (float64 (.infinity negative))
  | _ => none

/-- What becomes of a number in a floating-point kind: a finite number, or nothing where it is
refused, or an infinity. -/
inductive Converted (number : ℚ) : Kind → Option Scalar → Prop
  | wide {rounded : Binary64} (within : |number| < binary64.limit)
      (isFinite : rounded.isFinite = true) : Converted number .float64 (some (float64 rounded))
  | narrow {rounded : Binary32} (within : |number| < binary32.limit)
      (isFinite : rounded.isFinite = true) : Converted number .float32 (some (float32 rounded))
  | refused (beyond : binary32.greatest < |number|) (within : |number| < binary64.limit) :
      Converted number .float32 none
  | wideInfinity (beyond : binary64.limit ≤ |number|) :
      Converted number .float64 (some (float64 (.infinity (decide (number < 0)))))
  | narrowInfinity (beyond : binary64.limit ≤ |number|) :
      Converted number .float32 (some (float32 (.infinity (decide (number < 0)))))

theorem Converted.isFiniteFloat_iff {kind : Kind} {converted : Option Scalar}
    (isConverted : Converted number kind converted) :
    (∀ result, converted = some result → result.isFiniteFloat = true) ↔
      |number| < binary64.limit := by
  cases isConverted with
  | wide within isFinite =>
      refine iff_of_true ?_ within
      rintro _ ⟨⟩
      exact isFinite
  | narrow within isFinite =>
      refine iff_of_true ?_ (within.trans limit_binary32_lt_limit_binary64)
      rintro _ ⟨⟩
      exact isFinite
  | refused _ within =>
      refine iff_of_true ?_ within
      rintro _ ⟨⟩
  | wideInfinity beyond | narrowInfinity beyond =>
      exact iff_of_false (fun all => Bool.false_ne_true (all _ rfl)) beyond.not_gt

theorem Converted.eq_infinity? {kind : Kind} {converted : Option Scalar}
    (isConverted : Converted number kind converted) (beyond : binary64.limit ≤ |number|) :
    converted = infinity? (decide (number < 0)) kind := by
  cases isConverted with
  | wideInfinity | narrowInfinity => rfl
  | wide within | refused _ within => exact absurd within beyond.not_gt
  | narrow within =>
      exact absurd (within.trans limit_binary32_lt_limit_binary64) beyond.not_gt

theorem converted_float64 {rounded : Binary64} (rounding : rounded.IsRounding number) :
    Converted number .float64 (some (float64 rounded)) := by
  rcases lt_or_ge |number| binary64.limit with within | beyond
  · exact .wide within ((rounding.isFinite_iff odd_binary64).mpr within)
  · rw [rounding.eq_infinity odd_binary64 beyond]
    exact .wideInfinity beyond

theorem converted_float32 {rounded : Binary64} (rounding : rounded.IsRounding number) :
    Converted number .float32 ((narrow? rounded).map float32) := by
  rcases lt_or_ge |number| binary64.limit with within | beyond
  · cases narrowed : narrow? rounded with
    | none =>
        have accepted := mt (narrow?_isSome rounding) (by simp [narrowed])
        exact .refused (not_le.mp accepted) within
    | some result =>
        have isFinite := (rounding.isFinite_iff odd_binary64).mpr within
        refine .narrow ?_ (isFinite_of_narrow? isFinite narrowed)
        -- The wide rounding of a number beyond the narrow limit lies beyond it too.
        refine not_le.mp fun beyond => ?_
        rw [narrow?_eq_none rounding beyond within] at narrowed
        cases narrowed
  · rw [narrow?_eq_infinity rounding beyond]
    exact .narrowInfinity beyond

/-- A datum that stands for a number is converted as the number. -/
theorem Denotes.converted (denotes : datum.Denotes number) {kind : Kind}
    (floating : kind = .float32 ∨ kind = .float64) :
    Converted number kind (datum.convert? kind) := by
  by_cases same : datum.kind = kind
  · have isSelf : datum.convert? kind = some datum := if_pos same
    rw [isSelf]
    cases denotes with
    | float32 isNumber =>
        obtain rfl := same
        have within := (Number.abs_le_greatest isNumber).trans_lt binary32.greatest_lt_limit
        have rounding := Number.isRounding_of_rational? isNumber
        exact .narrow within ((rounding.isFinite_iff odd_binary32).mpr within)
    | float64 isNumber =>
        obtain rfl := same
        exact converted_float64 (Number.isRounding_of_rational? isNumber)
    | bool | integer | text =>
        subst same
        rcases floating with other | other <;> cases other
  · obtain ⟨rounded, isNumeric, rounding⟩ := denotes.exists_numeric?
    unfold convert?
    rw [if_neg same]
    rcases floating with rfl | rfl
    · simpa only [isNumeric, Option.bind_some] using converted_float32 rounding
    · simpa only [isNumeric, Option.map_some] using converted_float64 rounding

end ProcessImage.Scalar
