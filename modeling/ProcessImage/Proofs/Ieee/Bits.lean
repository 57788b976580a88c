import ProcessImage.Ieee.Format

/-!
# Floating-point data by their bit patterns

Every datum is read back from its bit pattern, and the pattern fits the width of
the format.  Reading a not-a-number back takes a format with a fraction, as only
there its pattern differs from that of infinity.
-/

namespace ProcessImage.Ieee

namespace Format

variable (format : Format)

theorem binade_pos : 0 < format.binade :=
  Nat.two_pow_pos _

/-- The codes of the largest exponent fill up the bits below the sign. -/
theorem infinityCode_add_binade : format.infinityCode + format.binade = format.signWeight := by
  have positive : 1 ≤ 2 ^ format.exponentBits := Nat.one_le_two_pow
  simp only [infinityCode, binade, signWeight, Nat.pow_eq, Nat.pow_add]
  rw [← Nat.succ_mul, Nat.succ_eq_add_one, Nat.sub_add_cancel positive]

theorem infinityCode_lt_signWeight : format.infinityCode < format.signWeight := by
  rw [← format.infinityCode_add_binade]
  exact Nat.lt_add_of_pos_right format.binade_pos

/-- With a fraction the code of a not-a-number lies between that of infinity and
the sign. -/
theorem nanCode_bounds (fraction : 0 < format.fractionBits) :
    format.infinityCode < format.infinityCode + format.binade / 2 ∧
      format.infinityCode + format.binade / 2 < format.signWeight := by
  have two : 2 ≤ format.binade :=
    calc 2 = 2 ^ 1 := rfl
      _ ≤ 2 ^ format.fractionBits := Nat.pow_le_pow_right (by decide) fraction
  have whole := format.infinityCode_add_binade
  omega

end Format

namespace Number

variable {format : Format}

/-- A pattern of a sign and a code is read by its code. -/
theorem ofBits_bitsOf (negative : Bool) {code : Nat} (small : code < format.signWeight) :
    (ofBits (bitsOf format negative code) : Number format) =
      if format.infinityCode < code then nan else ofCode negative code := by
  have positive : 0 < format.signWeight := Nat.zero_lt_of_lt small
  have lower : bitsOf format negative code % format.signWeight = code := by
    cases negative <;> simp [bitsOf, Nat.mod_eq_of_lt small]
  have sign : (bitsOf format negative code / format.signWeight % 2 == 1) = negative := by
    cases negative <;> simp [bitsOf, Nat.div_eq_of_lt small, positive]
  simp only [ofBits, lower, sign]

/-- Every datum is read back from its pattern. -/
theorem ofBits_toBits (fraction : 0 < format.fractionBits) (number : Number format) :
    ofBits number.toBits = number := by
  cases number with
  | nan =>
      obtain ⟨above, below⟩ := format.nanCode_bounds fraction
      have positive : (nan : Number format).toBits =
          bitsOf format false (format.infinityCode + format.binade / 2) := by simp [toBits, bitsOf]
      rw [positive, ofBits_bitsOf false below, if_pos above]
  | infinity negative =>
      rw [toBits, ofBits_bitsOf negative format.infinityCode_lt_signWeight,
        if_neg (Nat.lt_irrefl _), ofCode, dif_neg (Nat.lt_irrefl _)]
  | finite negative code =>
      have small := code.isLt
      rw [toBits, ofBits_bitsOf negative (Nat.lt_trans small format.infinityCode_lt_signWeight),
        if_neg (Nat.lt_asymm small), ofCode, dif_pos small]

/-- A pattern has one bit more than the sign weighs. -/
theorem toBits_lt (number : Number format) : number.toBits < 2 * format.signWeight := by
  have whole := format.infinityCode_add_binade
  have positive := format.binade_pos
  have bits (negative : Bool) {code : Nat} (small : code < format.signWeight) :
      bitsOf format negative code < 2 * format.signWeight := by
    cases negative <;> simp only [bitsOf] <;> simp <;> omega
  cases number with
  | nan => simp only [toBits]; omega
  | infinity negative => exact bits negative format.infinityCode_lt_signWeight
  | finite negative code =>
      exact bits negative (Nat.lt_trans code.isLt format.infinityCode_lt_signWeight)

end Number

end ProcessImage.Ieee
