import Mathlib.Data.Rat.Floor
import ProcessImage.Proofs.Ieee.Range

/-!
# Integer parts

A finite number loses its fraction toward zero.  A narrow number is a wide one too, so it
loses nothing on its way through the wide format.

The wide format reads no integer from numbers of magnitude ten to the power 38 and more.
That is far beyond 64 bits: where the integer part has 64 bits, it is read.
-/

namespace ProcessImage.Ieee

/-! ## Toward zero -/

/-- A rational number without its fraction, toward zero. -/
def towardZero (number : ℚ) : ℤ :=
  if number < 0 then ⌈number⌉ else ⌊number⌋

@[simp]
theorem towardZero_intCast (whole : ℤ) : towardZero whole = whole := by
  simp [towardZero]

theorem towardZero_signed (negative : Bool) {magnitude : ℚ} (nonneg : 0 ≤ magnitude) :
    towardZero (signed negative magnitude) = if negative then -⌊magnitude⌋ else ⌊magnitude⌋ := by
  cases negative with
  | false => simp [towardZero, signed, nonneg]
  | true =>
      rcases nonneg.eq_or_lt with rfl | positive
      · simp [towardZero, signed]
      · simp [towardZero, signed, positive, Int.ceil_neg]

theorem abs_towardZero_signed (negative : Bool) {magnitude : ℚ} (nonneg : 0 ≤ magnitude) :
    |towardZero (signed negative magnitude)| = ⌊magnitude⌋ := by
  have floor := Int.floor_nonneg.mpr nonneg
  rw [towardZero_signed negative nonneg]
  split
  · rw [abs_neg, abs_of_nonneg floor]
  · rw [abs_of_nonneg floor]

namespace Format

variable (format : Format)

theorem floor_magnitude (code : ℕ) :
    ⌊format.magnitude code⌋ = (format.units code / format.unitsPerOne : ℕ) :=
  Rat.floor_natCast_div_natCast _ _

/-- A magnitude is whole when its units make up a multiple of one. -/
theorem floor_magnitude_eq_iff (code : ℕ) :
    (⌊format.magnitude code⌋ : ℚ) = format.magnitude code ↔
      format.units code % format.unitsPerOne = 0 := by
  rw [floor_magnitude, magnitude, eq_div_iff format.unitsPerOne_pos.ne', Int.cast_natCast,
    ← Nat.cast_mul, Nat.cast_inj, ← Nat.dvd_iff_mod_eq_zero]
  exact ⟨Dvd.intro_left _, Nat.div_mul_cancel⟩

/-! ## Wide formats -/

/-- Whatever has no more digits than the codes of a binade, followed by zeros, is the magnitude
of a code. -/
theorem exists_units_eq (multiple doublings : ℕ) (small : multiple < 2 * format.binade) :
    ∃ code, format.units code = multiple * 2 ^ doublings := by
  induction doublings generalizing multiple with
  | zero => exact ⟨_, format.units_add small (.inl rfl)⟩
  | succ doublings ih =>
      rcases Nat.lt_or_ge multiple format.binade with subnormal | normal
      · obtain ⟨code, isCode⟩ := ih (multiple * 2) (by omega)
        exact ⟨code, by rw [isCode, Nat.mul_assoc, ← Nat.pow_succ']⟩
      · exact ⟨_, format.units_add small (.inr normal)⟩

variable {format}

/-- A format that has all digits of another one, and units as fine, has all its magnitudes. -/
theorem exists_magnitude_eq {source target : Format} (digits : source.binade ≤ target.binade)
    (fine : source.unitExponent ≤ target.unitExponent) (code : ℕ) :
    ∃ wide, target.magnitude wide = source.magnitude code := by
  obtain ⟨doublings, multiple, rfl, small, normal⟩ := source.exists_eq_add code
  obtain ⟨finer, isFiner⟩ := Nat.exists_eq_add_of_le fine
  obtain ⟨wide, isWide⟩ := target.exists_units_eq multiple (doublings + finer) (by omega)
  have units : target.unitsPerOne = source.unitsPerOne * 2 ^ finer := by
    simp only [unitsPerOne, isFiner, Nat.pow_eq, Nat.pow_add]
  refine ⟨wide, ?_⟩
  rw [magnitude, magnitude, isWide, source.units_add small normal,
    div_eq_div_iff target.unitsPerOne_pos.ne' source.unitsPerOne_pos.ne', units, Nat.pow_add]
  push_cast
  ring

/-- Only one code is nearest to a magnitude. -/
theorem IsNearest.unique {magnitude : ℚ} {code other : ℕ}
    (nearest : format.IsNearest magnitude code) (also : format.IsNearest magnitude other) :
    code = other :=
  eq_of_forall_lt_iff fun below => (nearest below).trans (also below).symm

end Format

namespace Number

/-- A format that has all magnitudes of another one has its numbers too. -/
theorem rational?_convert {source target : Format} (digits : source.binade ≤ target.binade)
    (fine : source.unitExponent ≤ target.unitExponent)
    (odd : (target.infinityCode - 1) % 2 = 1) (range : source.greatest < target.limit)
    (datum : Number source) : (datum.convert target).rational? = datum.rational? := by
  cases datum with
  | nan | infinity => rfl
  | finite negative code =>
      obtain ⟨wide, isWide⟩ := Format.exists_magnitude_eq digits fine code
      have nearest := target.isNearest_magnitude wide
      have isNearestCode : target.nearestCode (source.units code) source.unitsPerOne = wide := by
        refine Format.IsNearest.unique (target.isNearest_nearestCode (Nat.two_pow_pos _)) ?_
        change target.IsNearest (source.magnitude code) wide
        rwa [isWide] at nearest
      have small : wide < target.infinityCode := by
        rw [nearest.lt_infinityCode_iff odd, isWide]
        exact (source.magnitude_strictMono.monotone (Nat.le_pred_of_lt code.isLt)).trans_lt range
      rw [convert, ofQuotient, isNearestCode, ofCode, dif_pos small, rational?, rational?, isWide]

/-- A narrow number is the same number in the wide format. -/
theorem rational?_widened (datum : Binary32) :
    (datum.convert binary64).rational? = datum.rational? :=
  rational?_convert (by decide) (by decide) odd_binary64
    (binary32.greatest_lt_limit.trans limit_binary32_lt_limit_binary64) datum

variable {format : Format} {datum : Number format} {number : ℚ}

theorem truncate?_of_rational? (isNumber : datum.rational? = some number) :
    datum.truncate? = some (towardZero number) := by
  obtain ⟨negative, code, rfl, rfl⟩ := rational?_eq_some_iff.mp isNumber
  rw [towardZero_signed negative (format.magnitude_nonneg code), format.floor_magnitude]
  rfl

/-- A number is whole when it loses nothing toward zero. -/
theorem isWhole_iff (isNumber : datum.rational? = some number) :
    datum.isWhole = true ↔ (towardZero number : ℚ) = number := by
  obtain ⟨negative, code, rfl, rfl⟩ := rational?_eq_some_iff.mp isNumber
  rw [towardZero_signed negative (format.magnitude_nonneg code), isWhole, beq_iff_eq,
    ← format.floor_magnitude_eq_iff]
  cases negative <;> simp [signed]

end Number

/-! ## Integers of numbers -/

/-- The bound of what is read as an integer lies beyond 64 bits. -/
theorem le_magnitude_integralBound : (2 ^ 64 : ℚ) ≤ binary64.magnitude integralBound := by
  have less : 2 ^ 64 * binary64.unitsPerOne ≤ binary64.units integralBound := by decide +kernel
  rw [Format.magnitude, le_div_iff₀ binary64.unitsPerOne_pos]
  exact_mod_cast less

variable {datum : Binary64} {number : ℚ}

/-- The integer part of a number is read, unless it lies beyond 64 bits. -/
theorem integerPart?_cases (isNumber : datum.rational? = some number) :
    integerPart? datum = some (towardZero number) ∨
      integerPart? datum = none ∧ 2 ^ 64 ≤ |towardZero number| := by
  have truncated := Number.truncate?_of_rational? isNumber
  obtain ⟨negative, code, rfl, rfl⟩ := Number.rational?_eq_some_iff.mp isNumber
  unfold integerPart?
  split
  next => exact .inl truncated
  next large =>
    have above : integralBound ≤ code := by simpa [Number.magnitudeBelow] using large
    have beyond := le_magnitude_integralBound.trans
      (binary64.magnitude_strictMono.monotone above)
    refine .inr ⟨rfl, ?_⟩
    rw [abs_towardZero_signed negative (binary64.magnitude_nonneg code), Int.le_floor]
    exact_mod_cast beyond

/-- An integer of up to 64 bits is read exactly where the number is that integer. -/
theorem exactInteger?_eq_some_iff (isNumber : datum.rational? = some number) {whole : ℤ}
    (small : |whole| < 2 ^ 64) : exactInteger? datum = some whole ↔ number = whole := by
  have whole_iff := Number.isWhole_iff isNumber
  unfold exactInteger?
  split
  next isWhole =>
    have same := whole_iff.mp isWhole
    rcases integerPart?_cases isNumber with read | ⟨unread, beyond⟩
    · rw [read, Option.some.injEq, ← @Int.cast_inj ℚ, same]
    · rw [unread]
      refine iff_of_false nofun fun isInteger => ?_
      rw [isInteger, towardZero_intCast] at beyond
      exact small.not_ge beyond
  next fraction =>
    refine iff_of_false nofun fun isInteger => fraction (whole_iff.mpr ?_)
    rw [isInteger, towardZero_intCast]

end ProcessImage.Ieee
