import Mathlib.Algebra.Order.Field.Rat
import Mathlib.Algebra.Order.Field.Power
import Mathlib.Algebra.Order.Field.Basic
import Mathlib.Tactic.FieldSimp
import Mathlib.Tactic.NormNum
import ProcessImage.Proofs.Ieee.Order

/-!
# The range of a format

The code of a finite number is its magnitude by the usual rule of the fields: one and the
fraction, at an exponent that is counted from the bias.

A rational number is rounded to the nearest code.  The middle between the greatest finite
number and its successor is the limit of a format: what lies below it is rounded to a finite
number, and all else to an infinity.

The limit of the wide format lies far beyond that of the narrow one.  Between both, a wide
number is refused as a narrow one, so that no finite number becomes an infinity on that way.
-/

namespace ProcessImage.Ieee

/-- A magnitude with a sign. -/
def signed (negative : Bool) (magnitude : ℚ) : ℚ :=
  if negative then -magnitude else magnitude

@[simp]
theorem abs_signed (negative : Bool) (magnitude : ℚ) :
    |signed negative magnitude| = |magnitude| := by
  cases negative <;> simp [signed]

/-- A number tells its sign, unless it is zero. -/
theorem decide_signed_neg {magnitude : ℚ} (positive : 0 < magnitude) (negative : Bool) :
    decide (signed negative magnitude < 0) = negative := by
  cases negative <;> simp [signed, positive, positive.le]

namespace Format

variable (format : Format)

/-! ## Codes as rational numbers -/

/-- Magnitude of a code. -/
def magnitude (code : ℕ) : ℚ :=
  format.units code / format.unitsPerOne

/-- The middle between a code and the next one. -/
def middle (code : ℕ) : ℚ :=
  (format.units code + format.units (code + 1)) / (2 * format.unitsPerOne)

/-- The greatest finite number. -/
def greatest : ℚ :=
  format.magnitude (format.infinityCode - 1)

/-- The least number that is rounded to infinity. -/
def limit : ℚ :=
  format.middle (format.infinityCode - 1)

theorem unitsPerOne_pos : (0 : ℚ) < format.unitsPerOne :=
  Nat.cast_pos.mpr (Nat.two_pow_pos _)

theorem magnitude_strictMono : StrictMono format.magnitude := fun _ _ less =>
  (div_lt_div_iff_of_pos_right format.unitsPerOne_pos).mpr
    (Nat.cast_lt.mpr (format.units_strictMono less))

theorem magnitude_nonneg (code : ℕ) : 0 ≤ format.magnitude code :=
  div_nonneg (Nat.cast_nonneg _) format.unitsPerOne_pos.le

/-- What is added to an exponent to make up its field. -/
def bias : ℕ :=
  2 ^ (format.exponentBits - 1) - 1

variable {format} in
theorem unitsPerOne_eq (wide : 2 ≤ format.exponentBits) :
    (format.unitsPerOne : ℚ) = format.binade * 2 ^ (format.bias - 1 : ℤ) := by
  have positive : 2 ^ 1 ≤ 2 ^ (format.exponentBits - 1) :=
    Nat.pow_le_pow_right (by decide) (by omega)
  have exponent : (format.unitExponent : ℤ) = format.fractionBits + (format.bias - 1) := by
    simp only [unitExponent, bias, Nat.pow_eq]
    omega
  simp only [unitsPerOne, binade, Nat.pow_eq, Nat.cast_pow, Nat.cast_ofNat]
  rw [← zpow_natCast, ← zpow_natCast, ← zpow_add₀ two_ne_zero, exponent]

variable {format} in
/-- A number whose exponent field is empty is its fraction, at the least exponent. -/
theorem magnitude_subnormal (wide : 2 ≤ format.exponentBits) {fraction : ℕ}
    (within : fraction < format.binade) :
    format.magnitude fraction = fraction / format.binade * 2 ^ (1 - format.bias : ℤ) := by
  have units : format.units (0 * format.binade + fraction) = fraction * 2 ^ 0 :=
    format.units_add (by omega) (.inl rfl)
  rw [Nat.zero_mul, Nat.zero_add, Nat.pow_zero, Nat.mul_one] at units
  rw [magnitude, units, unitsPerOne_eq wide, ← div_div, div_eq_mul_inv _ (2 ^ _), ← zpow_neg,
    neg_sub]

variable {format} in
/-- Any other number is one and its fraction, at the exponent of its field. -/
theorem magnitude_normal (wide : 2 ≤ format.exponentBits) {exponent fraction : ℕ}
    (normal : exponent ≠ 0) (within : fraction < format.binade) :
    format.magnitude (exponent * format.binade + fraction) =
      (1 + fraction / format.binade) * 2 ^ (exponent - format.bias : ℤ) := by
  obtain ⟨doublings, rfl⟩ := Nat.exists_eq_succ_of_ne_zero normal
  have nonzero : (format.binade : ℚ) ≠ 0 := Nat.cast_ne_zero.mpr format.binade_pos.ne'
  have units : format.units (doublings * format.binade + (format.binade + fraction)) =
      (format.binade + fraction) * 2 ^ doublings :=
    format.units_add (by omega) (.inr (Nat.le_add_right _ _))
  rw [← Nat.add_assoc, ← Nat.succ_mul] at units
  have shifted : (2 : ℚ) ^ ((doublings.succ : ℕ) - format.bias : ℤ) =
      2 ^ doublings / 2 ^ (format.bias - 1 : ℤ) := by
    rw [← zpow_natCast, ← zpow_sub₀ two_ne_zero]
    congr 1
    omega
  rw [magnitude, units, unitsPerOne_eq wide, shifted]
  push_cast
  field_simp

theorem middle_eq (code : ℕ) :
    format.middle code = (format.magnitude code + format.magnitude (code + 1)) / 2 := by
  rw [middle, magnitude, magnitude, ← add_div, div_div, mul_comm (format.unitsPerOne : ℚ)]

theorem magnitude_lt_middle (code : ℕ) : format.magnitude code < format.middle code := by
  rw [middle_eq, left_lt_add_div_two]
  exact format.magnitude_strictMono (Nat.lt_succ_self code)

theorem middle_lt_magnitude (code : ℕ) : format.middle code < format.magnitude (code + 1) := by
  rw [middle_eq, add_div_two_lt_right]
  exact format.magnitude_strictMono (Nat.lt_succ_self code)

theorem middle_strictMono : StrictMono format.middle :=
  strictMono_nat_of_lt_succ fun code =>
    (format.middle_lt_magnitude code).trans (format.magnitude_lt_middle (code + 1))

theorem greatest_lt_limit : format.greatest < format.limit :=
  format.magnitude_lt_middle _

theorem limit_pos : 0 < format.limit :=
  (format.magnitude_nonneg _).trans_lt format.greatest_lt_limit

/-! ## The nearest code -/

/-- Whether a code is nearest to a magnitude, and even if another one is as near: the magnitude
lies beyond the middles behind all the codes below, and behind no others. -/
def IsNearest (magnitude : ℚ) (code : ℕ) : Prop :=
  ∀ other, other < code ↔
    format.middle other < magnitude ∨ format.middle other = magnitude ∧ other % 2 = 1

theorem isNearest_nearestCode {numerator denominator : ℕ} (positive : 0 < denominator) :
    format.IsNearest (numerator / denominator) (format.nearestCode numerator denominator) := by
  intro other
  have units : (0 : ℚ) < 2 * format.unitsPerOne := mul_pos two_pos format.unitsPerOne_pos
  have positive' : (0 : ℚ) < denominator := Nat.cast_pos.mpr positive
  rw [format.lt_nearestCode_iff positive, middle, div_lt_div_iff₀ units positive',
    div_eq_div_iff units.ne' positive'.ne', mul_left_comm]
  norm_cast

theorem isNearest_magnitude (code : ℕ) : format.IsNearest (format.magnitude code) code := by
  intro other
  constructor
  · intro below
    have next := format.magnitude_strictMono.monotone (Nat.succ_le_of_lt below)
    exact .inl ((format.middle_lt_magnitude other).trans_le next)
  · intro beyond
    refine Nat.lt_of_not_le fun above => ?_
    have less : format.magnitude code < format.middle other :=
      (format.magnitude_strictMono.monotone above).trans_lt (format.magnitude_lt_middle other)
    rcases beyond with more | ⟨same, -⟩
    · exact less.not_gt more
    · exact less.ne' same

/-- What lies below the first middle is rounded to zero. -/
theorem isNearest_zero {magnitude : ℚ} (small : magnitude < format.middle 0) :
    format.IsNearest magnitude 0 := by
  intro other
  have less := small.trans_le (format.middle_strictMono.monotone (Nat.zero_le other))
  exact iff_of_false (Nat.not_lt_zero _) (not_or.mpr ⟨less.not_gt, fun both => less.ne' both.1⟩)

/-- Rounding yields a code of a finite number exactly below the limit. -/
theorem IsNearest.lt_infinityCode_iff {format : Format}
    (odd : (format.infinityCode - 1) % 2 = 1) {magnitude : ℚ} {code : ℕ}
    (nearest : format.IsNearest magnitude code) :
    code < format.infinityCode ↔ magnitude < format.limit := by
  have beyond := nearest (format.infinityCode - 1)
  rw [and_iff_left odd, ← le_iff_lt_or_eq] at beyond
  rw [limit, ← not_iff_not, not_lt, not_lt, ← beyond]
  omega

end Format

namespace Number

variable {format : Format}

/-! ## Rounded numbers -/

/-- The rational number that a finite datum is. -/
def rational? : Number format → Option ℚ
  | finite negative code => some (signed negative (format.magnitude code))
  | _ => none

/-- Whether a datum is what a rational number is rounded to.  A zero may have either sign. -/
def IsRounding (datum : Number format) (number : ℚ) : Prop :=
  ∃ negative code, datum = ofCode negative code ∧ format.IsNearest |number| code ∧
    number = signed negative |number|

theorem isRounding_ofCode {negative : Bool} {magnitude : ℚ} (nonneg : 0 ≤ magnitude) {code : ℕ}
    (nearest : format.IsNearest magnitude code) :
    (ofCode negative code : Number format).IsRounding (signed negative magnitude) := by
  refine ⟨negative, code, rfl, ?_, ?_⟩ <;> rw [abs_signed, abs_of_nonneg nonneg]
  exact nearest

theorem isRounding_ofQuotient (negative : Bool) {numerator denominator : ℕ}
    (positive : 0 < denominator) :
    (ofQuotient negative numerator denominator : Number format).IsRounding
      (signed negative (numerator / denominator)) :=
  isRounding_ofCode (div_nonneg (Nat.cast_nonneg _) (Nat.cast_nonneg _))
    (format.isNearest_nearestCode positive)

theorem isRounding_ofInt (number : ℤ) : (ofInt number : Number format).IsRounding number := by
  have same : signed (decide (number < 0)) (number.natAbs / (1 : ℕ)) = number := by
    rcases Int.lt_or_le number 0 with negative | positive
    · simp [signed, negative, Nat.cast_natAbs, abs_of_neg negative]
    · simp [signed, Int.not_lt.mpr positive, Nat.cast_natAbs, abs_of_nonneg positive]
  rw [← same]
  exact isRounding_ofQuotient _ Nat.one_pos

theorem rational?_eq_some_iff {datum : Number format} {number : ℚ} :
    datum.rational? = some number ↔ ∃ negative code, datum = finite negative code ∧
      signed negative (format.magnitude code) = number := by
  cases datum <;> simp [rational?]

/-- A bit pattern is the number that its sign, its exponent field and its fraction make up,
unless the exponent field is full. -/
theorem rational?_ofBits (wide : 2 ≤ format.exponentBits) (negative : Bool)
    {exponent fraction : ℕ} (bounded : exponent < 2 ^ format.exponentBits)
    (within : fraction < format.binade) :
    (ofBits (bitsOf format negative (exponent * format.binade + fraction)) :
        Number format).rational? =
      if exponent = 2 ^ format.exponentBits - 1 then none
      else some (signed negative (if exponent = 0
        then fraction / format.binade * 2 ^ (1 - format.bias : ℤ)
        else (1 + fraction / format.binade) * 2 ^ (exponent - format.bias : ℤ))) := by
  have fits : exponent * format.binade + fraction < format.signWeight := by
    have last := Nat.mul_le_mul_right format.binade (Nat.le_sub_one_of_lt bounded)
    have whole := format.infinityCode_add_binade
    rw [Format.infinityCode, Nat.pow_eq] at whole
    omega
  rw [ofBits_bitsOf negative fits]
  by_cases full : exponent = 2 ^ format.exponentBits - 1
  · have infinity : format.infinityCode ≤ exponent * format.binade + fraction := by
      rw [full, Format.infinityCode, Nat.pow_eq]
      exact Nat.le_add_right _ _
    rw [if_pos full]
    split
    next => rfl
    next =>
      unfold ofCode
      rw [dif_neg infinity.not_gt]
      rfl
  · have finite : exponent * format.binade + fraction < format.infinityCode := by
      have next := Nat.mul_le_mul_right format.binade
        (show exponent + 1 ≤ 2 ^ format.exponentBits - 1 by omega)
      rw [Nat.succ_mul] at next
      rw [Format.infinityCode, Nat.pow_eq]
      omega
    rw [if_neg full, if_neg finite.not_gt, ofCode, dif_pos finite, rational?]
    dsimp only
    split
    next subnormal =>
      rw [subnormal, Nat.zero_mul, Nat.zero_add, Format.magnitude_subnormal wide within]
    next normal => rw [Format.magnitude_normal wide normal within]

/-- A finite number is what it is rounded to in its own format. -/
theorem isRounding_of_rational? {datum : Number format} {number : ℚ}
    (isNumber : datum.rational? = some number) : datum.IsRounding number := by
  obtain ⟨negative, code, rfl, rfl⟩ := rational?_eq_some_iff.mp isNumber
  have same : (finite negative code : Number format) = ofCode negative code := by
    rw [ofCode, dif_pos code.isLt]
  rw [same]
  exact isRounding_ofCode (format.magnitude_nonneg _) (format.isNearest_magnitude _)

theorem isRounding_convert {target : Format} {datum : Number format} {number : ℚ}
    (isNumber : datum.rational? = some number) : (datum.convert target).IsRounding number := by
  obtain ⟨negative, code, rfl, rfl⟩ := rational?_eq_some_iff.mp isNumber
  exact isRounding_ofQuotient negative (Nat.two_pow_pos _)

/-- A finite number is not beyond the greatest one of its format. -/
theorem abs_le_greatest {datum : Number format} {number : ℚ}
    (isNumber : datum.rational? = some number) : |number| ≤ format.greatest := by
  obtain ⟨negative, code, rfl, rfl⟩ := rational?_eq_some_iff.mp isNumber
  rw [abs_signed, abs_of_nonneg (format.magnitude_nonneg _)]
  exact format.magnitude_strictMono.monotone (Nat.le_pred_of_lt code.isLt)

theorem isFinite_ofCode (negative : Bool) (code : ℕ) :
    (ofCode negative code : Number format).isFinite = true ↔ code < format.infinityCode := by
  unfold ofCode
  split
  next small => exact iff_of_true rfl small
  next large => exact iff_of_false Bool.false_ne_true large

/-- A number is rounded to a finite one exactly below the limit. -/
theorem IsRounding.isFinite_iff (odd : (format.infinityCode - 1) % 2 = 1) {number : ℚ}
    {datum : Number format} (rounding : datum.IsRounding number) :
    datum.isFinite = true ↔ |number| < format.limit := by
  obtain ⟨negative, code, rfl, nearest, -⟩ := rounding
  rw [isFinite_ofCode, nearest.lt_infinityCode_iff odd]

/-- From the limit on, a number is rounded to the infinity of its sign. -/
theorem IsRounding.eq_infinity (odd : (format.infinityCode - 1) % 2 = 1) {number : ℚ}
    {datum : Number format} (rounding : datum.IsRounding number)
    (beyond : format.limit ≤ |number|) : datum = infinity (decide (number < 0)) := by
  obtain ⟨negative, code, rfl, nearest, sign⟩ := rounding
  have large := mt (nearest.lt_infinityCode_iff odd).mp beyond.not_gt
  rw [ofCode, dif_neg large, sign, decide_signed_neg (format.limit_pos.trans_le beyond)]

end Number

/-! ## The two formats -/

theorem Format.limit_eq_sub {format : Format} {high low : ℕ}
    (doubled : format.units (format.infinityCode - 1) +
        format.units (format.infinityCode - 1 + 1) + 2 ^ low * (2 * format.unitsPerOne) =
      2 ^ high * (2 * format.unitsPerOne)) :
    format.limit = 2 ^ high - 2 ^ low := by
  have units : (0 : ℚ) < 2 * format.unitsPerOne := mul_pos two_pos format.unitsPerOne_pos
  rw [limit, middle, div_eq_iff units.ne', sub_mul, eq_sub_iff_add_eq]
  exact_mod_cast doubled

theorem limit_binary32 : binary32.limit = 2 ^ 128 - 2 ^ 103 :=
  Format.limit_eq_sub (by decide +kernel)

theorem limit_binary64 : binary64.limit = 2 ^ 1024 - 2 ^ 970 :=
  Format.limit_eq_sub (by decide +kernel)

theorem odd_binary32 : (binary32.infinityCode - 1) % 2 = 1 := by decide

theorem odd_binary64 : (binary64.infinityCode - 1) % 2 = 1 := by decide

theorem limit_binary32_lt_limit_binary64 : binary32.limit < binary64.limit :=
  calc binary32.limit = 2 ^ 128 - 2 ^ 103 := limit_binary32
    _ < 2 ^ 128 := sub_lt_self _ (pow_pos two_pos _)
    _ ≤ 2 ^ 1023 := pow_le_pow_right₀ one_le_two (by decide)
    _ = 2 ^ 1024 - 2 ^ 1023 := by rw [pow_succ _ 1023, mul_two, add_sub_cancel_right]
    _ ≤ 2 ^ 1024 - 2 ^ 970 := sub_le_sub_left (pow_le_pow_right₀ one_le_two (by decide)) _
    _ = binary64.limit := limit_binary64.symm

/-- Integers of 64 bits lie far below the limits of both formats. -/
theorem lt_limit_binary64 {number : ℚ} (small : number ≤ 2 ^ 64) : number < binary64.limit := by
  have within : (2 ^ 64 : ℚ) < binary32.limit := by
    rw [limit_binary32]
    norm_num
  exact (small.trans_lt within).trans limit_binary32_lt_limit_binary64

/-- The greatest narrow number is a wide number. -/
theorem magnitude_greatestNarrowCode :
    binary64.magnitude greatestNarrowCode = binary32.greatest := by
  have same : binary64.units greatestNarrowCode * binary32.unitsPerOne =
      binary32.units (binary32.infinityCode - 1) * binary64.unitsPerOne := by decide +kernel
  rw [Format.greatest, Format.magnitude, Format.magnitude,
    div_eq_div_iff binary64.unitsPerOne_pos.ne' binary32.unitsPerOne_pos.ne']
  exact_mod_cast same

theorem middle_greatestNarrowCode_lt : binary64.middle greatestNarrowCode < binary32.limit := by
  have less : (binary64.units greatestNarrowCode + binary64.units (greatestNarrowCode + 1)) *
        (2 * binary32.unitsPerOne) <
      (binary32.units (binary32.infinityCode - 1) +
        binary32.units (binary32.infinityCode - 1 + 1)) * (2 * binary64.unitsPerOne) := by
    decide +kernel
  rw [Format.limit, Format.middle, Format.middle,
    div_lt_div_iff₀ (mul_pos two_pos binary64.unitsPerOne_pos)
      (mul_pos two_pos binary32.unitsPerOne_pos)]
  exact_mod_cast less

/-! ## Wide numbers as narrow ones -/

section Narrow

variable {number : ℚ} {datum : Binary64} {result : Binary32}

theorem narrow?_finite_eq_none_iff (negative : Bool) (code : Fin binary64.infinityCode) :
    narrow? (.finite negative code) = none ↔ greatestNarrowCode < code := by
  simp [narrow?]

/-- A finite wide number does not become an infinite narrow one. -/
theorem isFinite_of_narrow? (isFinite : datum.isFinite = true)
    (narrowed : narrow? datum = some result) : result.isFinite = true := by
  cases datum with
  | nan | infinity => cases isFinite
  | finite negative code =>
      have accepted : code ≤ greatestNarrowCode :=
        Nat.not_lt.mp (mt (narrow?_finite_eq_none_iff negative code).mpr (by simp [narrowed]))
      have isConverted : result = (Number.finite negative code).convert binary32 := by
        rw [narrow?, if_neg (Nat.not_lt.mpr accepted)] at narrowed
        exact (Option.some.inj narrowed).symm
      rw [isConverted, (Number.isRounding_convert rfl).isFinite_iff odd_binary32, abs_signed,
        abs_of_nonneg (binary64.magnitude_nonneg _)]
      calc binary64.magnitude code
          ≤ binary64.magnitude greatestNarrowCode := binary64.magnitude_strictMono.monotone accepted
        _ = binary32.greatest := magnitude_greatestNarrowCode
        _ < binary32.limit := binary32.greatest_lt_limit

/-- What a number within the wide format is rounded to is refused as a narrow number exactly
when the rounding goes beyond the greatest one. -/
theorem narrow?_eq_none_iff (rounding : datum.IsRounding number)
    (within : |number| < binary64.limit) :
    narrow? datum = none ↔ binary64.middle greatestNarrowCode < |number| ∨
      binary64.middle greatestNarrowCode = |number| ∧ greatestNarrowCode % 2 = 1 := by
  obtain ⟨negative, code, rfl, nearest, -⟩ := rounding
  have small := (nearest.lt_infinityCode_iff odd_binary64).mpr within
  rw [Number.ofCode, dif_pos small, narrow?_finite_eq_none_iff]
  exact nearest greatestNarrowCode

/-- From the limit of the narrow format on, a number is refused. -/
theorem narrow?_eq_none (rounding : datum.IsRounding number) (beyond : binary32.limit ≤ |number|)
    (within : |number| < binary64.limit) : narrow? datum = none :=
  (narrow?_eq_none_iff rounding within).mpr (.inl (middle_greatestNarrowCode_lt.trans_le beyond))

/-- Up to the greatest narrow number, no number is refused. -/
theorem narrow?_isSome (rounding : datum.IsRounding number) (small : |number| ≤ binary32.greatest) :
    (narrow? datum).isSome = true := by
  have within := (small.trans_lt binary32.greatest_lt_limit).trans limit_binary32_lt_limit_binary64
  have less : |number| < binary64.middle greatestNarrowCode := by
    rw [← magnitude_greatestNarrowCode] at small
    exact small.trans_lt (binary64.magnitude_lt_middle _)
  rw [Option.isSome_iff_ne_none, ne_eq, narrow?_eq_none_iff rounding within, not_or]
  exact ⟨less.not_gt, fun both => less.ne' both.1⟩

/-- From the limit of the wide format on, a number is an infinity in the narrow one too. -/
theorem narrow?_eq_infinity (rounding : datum.IsRounding number)
    (beyond : binary64.limit ≤ |number|) :
    narrow? datum = some (.infinity (decide (number < 0))) := by
  rw [rounding.eq_infinity odd_binary64 beyond]
  rfl

end Narrow

end ProcessImage.Ieee
