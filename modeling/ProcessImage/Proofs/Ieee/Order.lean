import Mathlib.Algebra.Group.Nat.Defs
import Mathlib.Order.Monotone.Basic
import ProcessImage.Ieee.Rounding
import ProcessImage.Proofs.Ieee.Bits

/-!
# The order of codes

Codes ascend as magnitudes do: from one code to the next the magnitude grows by one step of
its binade.  So the greatest code below an amount tells of every code whether its magnitude
is within the amount, and rounding goes beyond a code exactly when the quotient lies beyond
the middle between its magnitude and the next, or there at an odd code.
-/

namespace ProcessImage.Ieee.Format

variable (format : Format)

/-! ## Magnitudes ascend -/

/-- A code is made of the number of its binades after the first two and of a multiple of their
steps. -/
theorem units_add {doublings multiple : Nat} (small : multiple < 2 * format.binade)
    (normal : doublings = 0 ∨ format.binade ≤ multiple) :
    format.units (doublings * format.binade + multiple) = multiple * 2 ^ doublings := by
  have positive := format.binade_pos
  have quotient : (doublings * format.binade + multiple) / format.binade - 1 = doublings := by
    rw [Nat.mul_comm, Nat.mul_add_div positive]
    have upper : multiple / format.binade < 2 := (Nat.div_lt_iff_lt_mul positive).mpr small
    rcases normal with rfl | large
    · omega
    · have lower : 1 ≤ multiple / format.binade := (Nat.one_le_div_iff positive).mpr large
      omega
  rw [units, quotient, Nat.add_sub_cancel_left, Nat.pow_eq]

/-- Every code is made of such parts. -/
theorem exists_eq_add (code : Nat) :
    ∃ doublings multiple, code = doublings * format.binade + multiple ∧
      multiple < 2 * format.binade ∧ (doublings = 0 ∨ format.binade ≤ multiple) := by
  have positive := format.binade_pos
  have whole := Nat.div_add_mod' code format.binade
  have rest := Nat.mod_lt code positive
  rcases Nat.eq_zero_or_pos (code / format.binade) with first | later
  · rw [first] at whole
    exact ⟨0, code, by omega, by omega, .inl rfl⟩
  · obtain ⟨doublings, isDoublings⟩ := Nat.exists_eq_succ_of_ne_zero (Nat.ne_of_gt later)
    rw [isDoublings, Nat.succ_mul] at whole
    exact ⟨doublings, format.binade + code % format.binade, by omega, by omega,
      .inr (Nat.le_add_right _ _)⟩

/-- The next code is one step further on. -/
theorem units_succ {doublings multiple : Nat} (small : multiple < 2 * format.binade)
    (normal : doublings = 0 ∨ format.binade ≤ multiple) :
    format.units (doublings * format.binade + multiple + 1) = (multiple + 1) * 2 ^ doublings := by
  have positive := format.binade_pos
  rcases Nat.lt_or_ge (multiple + 1) (2 * format.binade) with within | last
  · rw [Nat.add_assoc]
    exact format.units_add within (normal.imp_right (Nat.le_succ_of_le))
  · -- The first code of the next binade has a step of twice the size.
    have same : doublings * format.binade + multiple + 1 =
        (doublings + 1) * format.binade + format.binade := by
      rw [Nat.add_one_mul]
      omega
    have doubled : multiple + 1 = format.binade * 2 := by omega
    rw [same, format.units_add (by omega) (.inr (Nat.le_refl _)), doubled, Nat.mul_assoc,
      Nat.pow_succ']

theorem units_strictMono : StrictMono format.units := by
  refine strictMono_nat_of_lt_succ fun code => ?_
  obtain ⟨doublings, multiple, rfl, small, normal⟩ := format.exists_eq_add code
  rw [format.units_succ small normal, format.units_add small normal, Nat.add_one_mul]
  exact Nat.lt_add_of_pos_right (Nat.two_pow_pos _)

@[simp]
theorem units_zero : format.units 0 = 0 := by
  simp [units]

/-! ## The greatest code below an amount -/

/-- An amount lies between the magnitudes of the code that is found for it and of the next. -/
theorem units_codeBelow (amount : Nat) :
    format.units (format.codeBelow amount) ≤ amount ∧
      amount < format.units (format.codeBelow amount + 1) := by
  have step : 0 < 2 ^ (Nat.log2 amount - format.fractionBits) := Nat.two_pow_pos _
  have isBinade : format.binade = 2 ^ format.fractionBits := rfl
  have small : amount / 2 ^ (Nat.log2 amount - format.fractionBits) < 2 * format.binade := by
    rw [Nat.div_lt_iff_lt_mul step, isBinade, ← Nat.pow_succ', ← Nat.pow_add]
    calc amount < 2 ^ (Nat.log2 amount + 1) := Nat.lt_log2_self
      _ ≤ 2 ^ (format.fractionBits + 1 + (Nat.log2 amount - format.fractionBits)) :=
        Nat.pow_le_pow_right (by decide) (by omega)
  have normal : Nat.log2 amount - format.fractionBits = 0 ∨
      format.binade ≤ amount / 2 ^ (Nat.log2 amount - format.fractionBits) := by
    rcases Nat.eq_zero_or_pos (Nat.log2 amount - format.fractionBits) with first | later
    · exact .inl first
    · have some : amount ≠ 0 := by
        rintro rfl
        simp at later
      refine .inr ?_
      rw [Nat.le_div_iff_mul_le step, isBinade, ← Nat.pow_add, Nat.add_comm,
        Nat.sub_add_cancel (by omega)]
      exact Nat.log2_self_le some
  have isCode : format.codeBelow amount =
      (Nat.log2 amount - format.fractionBits) * format.binade +
        amount / 2 ^ (Nat.log2 amount - format.fractionBits) := rfl
  rw [isCode, format.units_add small normal, format.units_succ small normal]
  exact ⟨Nat.div_mul_le_self _ _, Nat.lt_mul_of_div_lt (Nat.lt_succ_self _) step⟩

/-- The codes up to the one that is found for an amount are those whose magnitude is within
it. -/
theorem le_codeBelow_iff {code amount : Nat} :
    code ≤ format.codeBelow amount ↔ format.units code ≤ amount := by
  obtain ⟨within, beyond⟩ := format.units_codeBelow amount
  constructor
  · intro below
    exact Nat.le_trans (format.units_strictMono.monotone below) within
  · intro small
    have := format.units_strictMono.lt_iff_lt.mp (Nat.lt_of_le_of_lt small beyond)
    exact Nat.lt_succ_iff.mp this

/-! ## Rounding -/

/-- The nearest code is the greatest one below the quotient or its successor: the latter when
the quotient lies beyond the middle between both, or in the middle if the former is odd. -/
theorem nearestCode_eq (numerator denominator : Nat) :
    let scaled := numerator * format.unitsPerOne
    let below := format.codeBelow (scaled / denominator)
    let middle := (format.units below + format.units (below + 1)) * denominator
    format.nearestCode numerator denominator =
      if middle < 2 * scaled ∨ middle = 2 * scaled ∧ below % 2 = 1 then below + 1 else below := by
  unfold nearestCode
  dsimp only
  generalize format.codeBelow (numerator * format.unitsPerOne / denominator) = below
  generalize (format.units below + format.units (below + 1)) * denominator = middle
  generalize numerator * format.unitsPerOne = scaled
  rcases Nat.lt_trichotomy (2 * scaled) middle with less | same | more
  · rw [Nat.compare_eq_lt.mpr less]
    exact (if_neg (by omega)).symm
  · rw [Nat.compare_eq_eq.mpr same]
    rcases Nat.mod_two_eq_zero_or_one below with even | odd
    · exact (if_pos even).trans (if_neg (by omega)).symm
    · exact (if_neg (by omega)).trans (if_pos (by omega)).symm
  · rw [Nat.compare_eq_gt.mpr more]
    exact (if_pos (.inl more)).symm

/-- Rounding goes beyond a code when the quotient lies beyond the middle between the
magnitudes of the code and of the next one, or in the middle if the code is odd. -/
theorem lt_nearestCode_iff {code numerator denominator : Nat} (positive : 0 < denominator) :
    code < format.nearestCode numerator denominator ↔
      (format.units code + format.units (code + 1)) * denominator <
          2 * (numerator * format.unitsPerOne) ∨
        (format.units code + format.units (code + 1)) * denominator =
            2 * (numerator * format.unitsPerOne) ∧ code % 2 = 1 := by
  have nearest := format.nearestCode_eq numerator denominator
  obtain ⟨within, beyond⟩ :=
    format.units_codeBelow (numerator * format.unitsPerOne / denominator)
  rw [Nat.le_div_iff_mul_le positive] at within
  rw [Nat.div_lt_iff_lt_mul positive] at beyond
  dsimp only at nearest
  generalize format.codeBelow (numerator * format.unitsPerOne / denominator) = below
    at nearest within beyond
  generalize numerator * format.unitsPerOne = scaled at nearest within beyond ⊢
  rcases Nat.lt_trichotomy code below with before | rfl | after
  · have first : format.units code < format.units below := format.units_strictMono before
    have second : format.units (code + 1) ≤ format.units below :=
      format.units_strictMono.monotone (Nat.succ_le_of_lt before)
    have middle : (format.units code + format.units (code + 1)) * denominator < 2 * scaled :=
      calc (format.units code + format.units (code + 1)) * denominator
          < 2 * format.units below * denominator :=
            Nat.mul_lt_mul_of_pos_right (by omega) positive
        _ ≤ 2 * scaled := by
            rw [Nat.mul_assoc]
            exact Nat.mul_le_mul_left 2 within
    refine iff_of_true ?_ (.inl middle)
    rw [nearest]
    split <;> omega
  · rw [nearest]
    split
    next up => exact iff_of_true (Nat.lt_succ_self _) up
    next down => exact iff_of_false (Nat.lt_irrefl _) down
  · have first : format.units (below + 1) ≤ format.units code :=
      format.units_strictMono.monotone (Nat.succ_le_of_lt after)
    have second : format.units code < format.units (code + 1) :=
      format.units_strictMono (Nat.lt_succ_self code)
    have middle : 2 * scaled < (format.units code + format.units (code + 1)) * denominator :=
      calc 2 * scaled
          < 2 * format.units (below + 1) * denominator := by
            rw [Nat.mul_assoc]
            exact Nat.mul_lt_mul_of_pos_left beyond (by decide)
        _ ≤ (format.units code + format.units (code + 1)) * denominator :=
            Nat.mul_le_mul_right _ (by omega)
    refine iff_of_false ?_ (by omega)
    rw [nearest]
    split <;> omega

end ProcessImage.Ieee.Format
