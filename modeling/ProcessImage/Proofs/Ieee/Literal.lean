import Mathlib.Tactic.FieldSimp
import ProcessImage.Ieee.Literal
import ProcessImage.Proofs.Ieee.Range
import ProcessImage.Proofs.Text.Decimal

/-!
# Decimal literals

A decimal literal is an optional sign, digits with at most one point among or around them,
and an optional exponent.  Every literal is read, and as the number that it is rounded to,
whatever the number of its digits and however large its exponent.
-/

namespace ProcessImage.Ieee

/-! ## The grammar -/

/-- A row of decimal digits, which may be empty. -/
def IsDigits (characters : List Char) : Prop :=
  ∀ character ∈ characters, character.isDigit = true

instance (characters : List Char) : Decidable (IsDigits characters) :=
  List.decidableBAll (fun character : Char => character.isDigit = true) characters

/-- The natural number that a row of digits writes. -/
def digitsValue (digits : List Char) : ℕ :=
  Nat.ofDigitChars 10 digits 0

/-- A sign in front of a literal or of its exponent, with whether it is a minus. -/
inductive IsSign : List Char → Bool → Prop
  | absent : IsSign [] false
  | plus : IsSign ['+'] false
  | minus : IsSign ['-'] true

/-- The digits of a literal and its point, with the number that they write. -/
inductive IsMantissa : List Char → ℚ → Prop
  | whole {digits : List Char} (present : digits ≠ []) (all : IsDigits digits) :
      IsMantissa digits (digitsValue digits)
  | point {whole fraction : List Char} (present : whole ++ fraction ≠ [])
      (before : IsDigits whole) (after : IsDigits fraction) :
      IsMantissa (whole ++ '.' :: fraction)
        (digitsValue whole + digitsValue fraction / 10 ^ fraction.length)

/-- The exponent of a literal, which is zero where none is written. -/
inductive IsExponent : List Char → ℤ → Prop
  | absent : IsExponent [] 0
  | written {marker : Char} {sign digits : List Char} {negative : Bool}
      (isMarker : marker = 'e' ∨ marker = 'E') (isSign : IsSign sign negative)
      (present : digits ≠ []) (all : IsDigits digits) :
      IsExponent (marker :: (sign ++ digits))
        (if negative then -(digitsValue digits : ℤ) else digitsValue digits)

/-- A decimal literal, with the number that it writes. -/
inductive IsLiteral : List Char → ℚ → Prop
  | mk {sign mantissa tail : List Char} {negative : Bool} {value : ℚ} {exponent : ℤ}
      (isSign : IsSign sign negative) (isMantissa : IsMantissa mantissa value)
      (isExponent : IsExponent tail exponent) :
      IsLiteral (sign ++ (mantissa ++ tail)) (signed negative (value * 10 ^ exponent))

/-- Digits and an exponent, both without sign, make a literal. -/
theorem isLiteral_scientific {digits places : List Char} (present : digits ≠ [])
    (all : IsDigits digits) (somePlaces : places ≠ []) (allPlaces : IsDigits places) :
    IsLiteral (digits ++ 'e' :: places) (digitsValue digits * 10 ^ digitsValue places) := by
  simpa [signed] using IsLiteral.mk .absent (.whole present all)
    (.written (.inl rfl) .absent somePlaces allPlaces)

/-! ## Magnitudes -/

namespace Magnitude

variable (magnitude : Magnitude)

/-- The number that a decimal magnitude is. -/
def value : ℚ :=
  magnitude.significand * 10 ^ magnitude.exponent

theorem value_nonneg : 0 ≤ magnitude.value :=
  mul_nonneg (Nat.cast_nonneg _) (zpow_nonneg (by decide) _)

theorem value_eq_div :
    magnitude.value = (magnitude.significand * Nat.pow 10 magnitude.exponent.toNat : ℕ) /
      (Nat.pow 10 (-magnitude.exponent).toNat : ℕ) := by
  obtain ⟨power, up | down⟩ := magnitude.exponent.eq_nat_or_neg
  · simp [value, up]
  · simp [value, down, div_eq_mul_inv]

/-- The place of the leading digit bounds a magnitude on both sides. -/
theorem value_bounds (some : magnitude.significand ≠ 0) :
    10 ^ (magnitude.places - 1) ≤ magnitude.value ∧ magnitude.value < 10 ^ magnitude.places := by
  have ten : (0 : ℚ) < 10 ^ magnitude.exponent := zpow_pos (by decide) _
  obtain ⟨count, isCount⟩ : ∃ count, (Nat.toDigits 10 magnitude.significand).length = count + 1 :=
    Nat.exists_eq_succ_of_ne_zero (List.length_pos_iff.mpr Nat.toDigits_ne_nil).ne'
  have lower : 10 ^ count ≤ magnitude.significand :=
    (Nat.div_pos_iff.mp (Text.div_pos_of_lt_length_toDigits (Nat.pos_of_ne_zero some)
      (by omega))).2
  have upper : magnitude.significand < 10 ^ (count + 1) :=
    (Nat.length_toDigits_le_iff (by decide) (Nat.succ_pos _)).mp isCount.le
  have split (power : ℕ) : (10 : ℚ) ^ (power + magnitude.exponent) =
      (10 ^ power : ℕ) * 10 ^ magnitude.exponent := by
    rw [zpow_add₀ (by decide), zpow_natCast, Nat.cast_pow, Nat.cast_ofNat]
  have leading : magnitude.places - 1 = count + magnitude.exponent := by
    rw [places, isCount, Nat.cast_succ]
    omega
  have behind : magnitude.places = (count + 1 : ℕ) + magnitude.exponent := by
    rw [places, isCount]
  rw [leading, behind, split, split, value]
  exact ⟨mul_le_mul_of_nonneg_right (Nat.cast_le.mpr lower) ten.le,
    mul_lt_mul_of_pos_right (Nat.cast_lt.mpr upper) ten⟩

/-- The limit has fewer than 400 places. -/
theorem limit_le_ten_pow : binary64.limit ≤ 10 ^ 400 := by
  have less : 2 ^ 1024 ≤ 10 ^ 400 := by decide +kernel
  calc binary64.limit = 2 ^ 1024 - 2 ^ 970 := limit_binary64
    _ ≤ 2 ^ 1024 := sub_le_self _ (pow_nonneg zero_le_two _)
    _ ≤ 10 ^ 400 := by exact_mod_cast less

/-- What is rounded to zero may have 400 empty places behind the point. -/
theorem ten_pow_le_middle_zero : (10 ^ (-400 : ℤ) : ℚ) ≤ binary64.middle 0 := by
  have first : binary64.middle 0 = 1 / (2 * binary64.unitsPerOne) := by
    rw [Format.middle, Format.units_zero, show binary64.units (0 + 1) = 1 by decide, Nat.cast_zero,
      Nat.cast_one, zero_add]
  have less : 2 * binary64.unitsPerOne ≤ 10 ^ 400 := by decide +kernel
  rw [first, zpow_neg, one_div]
  exact inv_anti₀ (mul_pos two_pos binary64.unitsPerOne_pos) (by exact_mod_cast less)

/-- A decimal magnitude is rounded correctly, also where that is done without looking at its
digits. -/
theorem isRounding_nearest (negative : Bool) :
    (magnitude.nearest negative).IsRounding (signed negative magnitude.value) := by
  have zero (small : magnitude.value < binary64.middle 0) :
      (.ofCode negative 0 : Binary64).IsRounding (signed negative magnitude.value) :=
    Number.isRounding_ofCode magnitude.value_nonneg (binary64.isNearest_zero small)
  have quotient : (.ofQuotient negative
      (magnitude.significand * Nat.pow 10 magnitude.exponent.toNat)
      (Nat.pow 10 (-magnitude.exponent).toNat) : Binary64).IsRounding
        (signed negative magnitude.value) := by
    rw [value_eq_div]
    exact Number.isRounding_ofQuotient negative (Nat.pow_pos (by decide))
  unfold nearest
  split
  next none =>
    refine zero ?_
    rw [value, none, Nat.cast_zero, zero_mul]
    exact (zpow_pos (by decide) _).trans_le ten_pow_le_middle_zero
  next some =>
    obtain ⟨lower, upper⟩ := magnitude.value_bounds some
    split
    next large =>
      -- The quotient would be an infinity as well, so it need not be computed.
      have beyond : binary64.limit ≤ magnitude.value :=
        calc binary64.limit ≤ 10 ^ 400 := limit_le_ten_pow
          _ ≤ 10 ^ (magnitude.places - 1) := by
            rw [← zpow_natCast]
            exact zpow_le_zpow_right₀ (by decide) (by omega)
          _ ≤ magnitude.value := lower
      have isInfinity := quotient.eq_infinity odd_binary64
        (by rwa [abs_signed, abs_of_nonneg magnitude.value_nonneg])
      rwa [isInfinity, decide_signed_neg (binary64.limit_pos.trans_le beyond)] at quotient
    next =>
      split
      next small =>
        refine zero (upper.trans_le ?_)
        exact (zpow_le_zpow_right₀ (by decide) small.le).trans ten_pow_le_middle_zero
      next => exact quotient

end Magnitude

/-! ## Reading the parts -/

theorem isDigit_eq (character : Char) : isDigit character = character.isDigit := by
  rw [Bool.eq_iff_iff, isDigit, Text.digitValue?, Char.isDigit, Bool.and_eq_true,
    decide_eq_true_eq, decide_eq_true_eq]
  split
  next within => exact iff_of_true rfl within
  next without => exact iff_of_false Bool.false_ne_true without

theorem readNat?_of_isDigits {digits : List Char} (present : digits ≠ []) (all : IsDigits digits) :
    Text.readNat? digits = some (digitsValue digits) := by
  cases digits with
  | nil => exact absurd rfl present
  | cons first rest => exact Text.readDigits?_eq_ofDigitChars all 0

theorem digitsValue_append (front back : List Char) :
    digitsValue (front ++ back) = 10 ^ back.length * digitsValue front + digitsValue back := by
  rw [digitsValue, Nat.ofDigitChars_append, Nat.ofDigitChars_eq_ofDigitChars_zero]
  rfl

/-- Digits end before a character that is none. -/
theorem takeWhile_isDigit {digits rest : List Char} (all : IsDigits digits)
    (ends : ∀ first ∈ rest.head?, first.isDigit = false) :
    (digits ++ rest).takeWhile isDigit = digits ∧ (digits ++ rest).dropWhile isDigit = rest := by
  have every : ∀ character ∈ digits, isDigit character = true := fun character inside =>
    (isDigit_eq character).trans (all character inside)
  rw [List.takeWhile_append_of_pos every, List.dropWhile_append_of_pos every]
  cases rest with
  | nil => simp
  | cons first others => simp [isDigit_eq, ends first rfl]

/-- A sign is split off from what has none. -/
theorem splitSign_append {sign rest : List Char} {negative : Bool} (isSign : IsSign sign negative)
    (unsigned : ∀ first ∈ rest.head?, first ≠ '-' ∧ first ≠ '+') :
    Text.splitSign (sign ++ rest) = (negative, rest) := by
  cases isSign with
  | plus | minus => rfl
  | absent =>
      cases rest with
      | nil => rfl
      | cons first others =>
          obtain ⟨minus, plus⟩ := unsigned first rfl
          unfold Text.splitSign
          split <;> simp_all

/-- A digit is not a sign. -/
theorem ne_sign_of_isDigit {character : Char} (digit : character.isDigit = true) :
    character ≠ '-' ∧ character ≠ '+' := by
  constructor <;> rintro rfl <;> exact absurd digit (by decide)

theorem readExponent?_of_isExponent {tail : List Char} {exponent : ℤ}
    (isExponent : IsExponent tail exponent) : readExponent? tail = some exponent := by
  cases isExponent with
  | absent => rfl
  | @written marker sign digits negative isMarker isSign present all =>
      have unsigned : ∀ first ∈ digits.head?, first ≠ '-' ∧ first ≠ '+' := fun first isFirst =>
        ne_sign_of_isDigit (all first (List.mem_of_mem_head? isFirst))
      simp only [readExponent?, if_pos isMarker, Text.readInt?, splitSign_append isSign unsigned,
        readNat?_of_isDigits present all]
      rfl

/-- An exponent starts with its marker. -/
theorem head_of_isExponent {tail : List Char} {exponent : ℤ} (isExponent : IsExponent tail exponent)
    {first : Char} (isFirst : first ∈ tail.head?) : first = 'e' ∨ first = 'E' := by
  cases isExponent with
  | absent => cases isFirst
  | written isMarker =>
      cases isFirst
      exact isMarker

/-- Neither a point nor a digit stands at the head of an exponent. -/
theorem head_of_isExponent_ne {tail : List Char} {exponent : ℤ}
    (isExponent : IsExponent tail exponent) {first : Char} (isFirst : first ∈ tail.head?) :
    first ≠ '.' ∧ first.isDigit = false := by
  rcases head_of_isExponent isExponent isFirst with rfl | rfl <;> decide

/-! ## Reading literals -/

theorem readMagnitude?_of_isMantissa {mantissa tail : List Char} {value : ℚ} {exponent : ℤ}
    (isMantissa : IsMantissa mantissa value) (isExponent : IsExponent tail exponent) :
    ∃ magnitude, readMagnitude? (mantissa ++ tail) = some magnitude ∧
      magnitude.value = value * 10 ^ exponent := by
  have read := readExponent?_of_isExponent isExponent
  cases isMantissa with
  | whole present all =>
      obtain ⟨before, after⟩ := takeWhile_isDigit all fun first isFirst =>
        (head_of_isExponent_ne isExponent isFirst).2
      refine ⟨⟨digitsValue mantissa, exponent⟩, ?_, rfl⟩
      have noPoint (rest : List Char) : tail ≠ '.' :: rest := by
        rintro rfl
        exact (head_of_isExponent_ne isExponent rfl).1 rfl
      simp only [readMagnitude?, before, after]
      simp [read, readNat?_of_isDigits present all]
  | @point whole fraction present before after =>
      obtain ⟨front, back⟩ := takeWhile_isDigit before
        (by simp : ∀ first ∈ ('.' :: (fraction ++ tail)).head?, first.isDigit = false)
      obtain ⟨inner, outer⟩ := takeWhile_isDigit after fun first isFirst =>
        (head_of_isExponent_ne isExponent isFirst).2
      have all : IsDigits (whole ++ fraction) :=
        List.forall_mem_append.mpr ⟨before, after⟩
      have ten : (10 : ℚ) ^ fraction.length ≠ 0 := pow_ne_zero _ (by decide)
      refine ⟨⟨digitsValue (whole ++ fraction), exponent - fraction.length⟩, ?_, ?_⟩
      · simp [readMagnitude?, front, back, inner, outer, readNat?_of_isDigits present all, read]
      · rw [Magnitude.value, digitsValue_append, zpow_sub₀ (by decide), zpow_natCast]
        push_cast
        field_simp

/-- What a mantissa starts with is not a sign. -/
theorem IsMantissa.unsigned {mantissa : List Char} {value : ℚ}
    (isMantissa : IsMantissa mantissa value) (tail : List Char) :
    ∀ first ∈ (mantissa ++ tail).head?, first ≠ '-' ∧ first ≠ '+' := by
  intro first isFirst
  cases isMantissa with
  | whole present all =>
      rw [List.head?_append_of_ne_nil _ present] at isFirst
      exact ne_sign_of_isDigit (all first (List.mem_of_mem_head? isFirst))
  | @point whole fraction present before after =>
      cases whole with
      | nil =>
          cases isFirst
          decide
      | cons leading rest =>
          cases isFirst
          exact ne_sign_of_isDigit (before _ List.mem_cons_self)

/-- Every decimal literal is read as what the number that it writes is rounded to. -/
theorem readNumber?_of_isLiteral {characters : List Char} {number : ℚ}
    (isLiteral : IsLiteral characters number) :
    ∃ datum, readNumber? characters = some datum ∧ datum.IsRounding number := by
  obtain @⟨sign, mantissa, tail, negative, value, exponent, isSign, isMantissa, isExponent⟩ :=
    isLiteral
  obtain ⟨magnitude, read, same⟩ := readMagnitude?_of_isMantissa isMantissa isExponent
  refine ⟨magnitude.nearest negative, ?_, same ▸ magnitude.isRounding_nearest negative⟩
  simp only [readNumber?, splitSign_append isSign (isMantissa.unsigned tail), read]

/-! ## Nothing else is read -/

theorem isDigits_of_readDigits? {characters : List Char} {soFar number : ℕ}
    (read : Text.readDigits? soFar characters = some number) : IsDigits characters := by
  induction characters generalizing soFar with
  | nil => exact List.forall_mem_nil _
  | cons character rest ih =>
      obtain ⟨digit, isDigit', others⟩ := Option.bind_eq_some_iff.mp read
      have first : isDigit character = true := by rw [isDigit, isDigit']; rfl
      exact List.forall_mem_cons.mpr ⟨(isDigit_eq character).symm.trans first, ih others⟩

theorem isDigits_of_readNat? {characters : List Char} {number : ℕ}
    (read : Text.readNat? characters = some number) : characters ≠ [] ∧ IsDigits characters := by
  cases characters with
  | nil => cases read
  | cons first rest => exact ⟨List.cons_ne_nil _ _, isDigits_of_readDigits? read⟩

/-- What is split off a text is a sign. -/
theorem exists_isSign (characters : List Char) :
    ∃ sign, IsSign sign (Text.splitSign characters).1 ∧
      characters = sign ++ (Text.splitSign characters).2 := by
  unfold Text.splitSign
  split
  · exact ⟨['-'], .minus, rfl⟩
  · exact ⟨['+'], .plus, rfl⟩
  · exact ⟨[], .absent, rfl⟩

theorem isExponent_of_readExponent? {tail : List Char} {exponent : ℤ}
    (read : readExponent? tail = some exponent) : ∃ exponent, IsExponent tail exponent := by
  cases tail with
  | nil => exact ⟨0, .absent⟩
  | cons marker rest =>
      rw [readExponent?] at read
      split at read
      next isMarker =>
        obtain ⟨sign, isSign, same⟩ := exists_isSign rest
        simp only [Text.readInt?, Option.map_eq_some_iff, Option.bind_eq_bind,
          Option.bind_eq_some_iff] at read
        obtain ⟨-, ⟨magnitude, isMagnitude, -⟩, -⟩ := read
        obtain ⟨present, all⟩ := isDigits_of_readNat? isMagnitude
        rw [same]
        exact ⟨_, .written isMarker isSign present all⟩
      next => cases read

theorem exists_parts_of_readMagnitude? {characters : List Char} {magnitude : Magnitude}
    (read : readMagnitude? characters = some magnitude) :
    ∃ mantissa tail value exponent, characters = mantissa ++ tail ∧
      IsMantissa mantissa value ∧ IsExponent tail exponent := by
  have halves := List.takeWhile_append_dropWhile (p := isDigit) (l := characters)
  simp only [readMagnitude?, Option.bind_eq_bind, Option.bind_eq_some_iff] at read
  obtain ⟨significand, isSignificand, exponent, isExponent, -⟩ := read
  obtain ⟨present, all⟩ := isDigits_of_readNat? isSignificand
  obtain ⟨before, after⟩ := List.forall_mem_append.mp all
  generalize characters.takeWhile isDigit = whole at *
  generalize characters.dropWhile isDigit = rest at *
  by_cases point : ∃ behind, rest = '.' :: behind
  · obtain ⟨behind, rfl⟩ := point
    obtain ⟨exponent, tail⟩ := isExponent_of_readExponent? isExponent
    refine ⟨whole ++ '.' :: behind.takeWhile isDigit, behind.dropWhile isDigit, _, _, ?_,
      .point present before after, tail⟩
    rw [List.append_assoc, List.cons_append, List.takeWhile_append_dropWhile, halves]
  · have noPoint (behind : List Char) : rest ≠ '.' :: behind := fun same => point ⟨behind, same⟩
    simp only [List.takeWhile_nil, List.append_nil] at isExponent present
    obtain ⟨exponent, tail⟩ := isExponent_of_readExponent? isExponent
    exact ⟨_, _, _, _, halves.symm, .whole present before, tail⟩

/-- What is read as a finite number is a decimal literal. -/
theorem exists_isLiteral_of_readNumber? {characters : List Char} {datum : Binary64}
    (read : readNumber? characters = some datum) (isFinite : datum.isFinite = true) :
    ∃ number, IsLiteral characters number := by
  obtain ⟨sign, isSign, same⟩ := exists_isSign characters
  simp only [readNumber?] at read
  split at read
  next magnitude isMagnitude =>
    obtain ⟨mantissa, tail, value, exponent, parts, isMantissa, isExponent⟩ :=
      exists_parts_of_readMagnitude? isMagnitude
    rw [same, parts]
    exact ⟨_, .mk isSign isMantissa isExponent⟩
  next =>
    split at read
    · cases read
      cases isFinite
    · split at read <;> cases read
      cases isFinite

end ProcessImage.Ieee
