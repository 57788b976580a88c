import Mathlib.Algebra.Group.Nat.Defs
import Mathlib.Data.List.TakeWhile
import ProcessImage.Scalar.Conversion

/-!
# Integers that survive as text

An integer written in decimal is read back.  No character of it is a blank, so
nothing is lost where the blanks around a text are dropped.
-/

namespace ProcessImage.Text

/-! ## Digits -/

/-- A decimal digit by its number. -/
theorem isDigit_iff (character : Char) :
    character.isDigit = true ↔ 48 ≤ character.toNat ∧ character.toNat ≤ 57 := by
  simp only [Char.isDigit, Bool.and_eq_true, decide_eq_true_eq, ge_iff_le, UInt32.le_iff_toNat_le]
  rfl

theorem digitValue?_of_isDigit {character : Char} (digit : character.isDigit = true) :
    digitValue? character = some (character.toNat - 48) := by
  simp only [Char.isDigit, Bool.and_eq_true, decide_eq_true_eq] at digit
  exact if_pos digit

/-- Digits are read as the number that they make in base ten. -/
theorem readDigits?_eq_ofDigitChars {characters : List Char}
    (digits : ∀ character ∈ characters, character.isDigit = true) (soFar : Nat) :
    readDigits? soFar characters = some (Nat.ofDigitChars 10 characters soFar) := by
  induction characters generalizing soFar with
  | nil => rfl
  | cons character rest ih =>
      rw [List.forall_mem_cons] at digits
      have next : readDigits? soFar (character :: rest) =
          readDigits? (soFar * 10 + (character.toNat - 48)) rest := by
        rw [readDigits?, digitValue?_of_isDigit digits.1]
        rfl
      rw [next, ih digits.2, Nat.mul_comm]
      rfl

theorem isDigit_of_mem_toDigits (number : Nat) {character : Char}
    (inside : character ∈ Nat.toDigits 10 number) : character.isDigit = true :=
  Nat.isDigit_of_mem_toDigits (by decide) (by decide) inside

/-- A natural number is read back from its digits. -/
theorem readNat?_toDigits (number : Nat) : readNat? (Nat.toDigits 10 number) = some number := by
  have digits := readDigits?_eq_ofDigitChars (fun _ => isDigit_of_mem_toDigits number) 0
  rw [Nat.ofDigitChars_toDigits (by decide) (by decide)] at digits
  cases written : Nat.toDigits 10 number with
  | nil => exact absurd written Nat.toDigits_ne_nil
  | cons first rest =>
      rw [written] at digits
      exact digits

/-- Digits have no sign. -/
theorem splitSign_toDigits (number : Nat) :
    splitSign (Nat.toDigits 10 number) = (false, Nat.toDigits 10 number) := by
  cases written : Nat.toDigits 10 number with
  | nil => rfl
  | cons first rest =>
      have digit : first.isDigit = true :=
        isDigit_of_mem_toDigits number (by simp [written])
      unfold splitSign
      split
      case h_1 minus => cases minus; exact absurd digit (by decide)
      case h_2 plus => cases plus; exact absurd digit (by decide)
      case h_3 => rfl

/-- An integer is read back from its decimal text. -/
theorem readInt?_writeInt (number : Int) : readInt? (writeInt number).toList = some number := by
  cases number with
  | ofNat magnitude =>
      simp [writeInt, readInt?, String.toList_ofList, splitSign_toDigits, readNat?_toDigits]
  | negSucc below =>
      simp [writeInt, readInt?, String.toList_ofList, splitSign, readNat?_toDigits,
        Int.negSucc_eq]

/-- A decimal integer is made of digits, apart from a minus sign. -/
theorem eq_minus_or_isDigit_of_mem_writeInt {number : Int} {character : Char}
    (inside : character ∈ (writeInt number).toList) :
    character = '-' ∨ character.isDigit = true := by
  cases number with
  | ofNat magnitude =>
      rw [writeInt, String.toList_ofList] at inside
      exact .inr (isDigit_of_mem_toDigits _ inside)
  | negSucc below =>
      rw [writeInt, String.toList_ofList, List.mem_cons] at inside
      exact inside.imp_right (isDigit_of_mem_toDigits _)

theorem zero_not_mem_writeInt (number : Int) : '\x00' ∉ (writeInt number).toList := by
  intro inside
  rcases eq_minus_or_isDigit_of_mem_writeInt inside with minus | digit
  · exact absurd minus (by decide)
  · exact absurd digit (by decide)

/-- Every character of a decimal integer takes one byte. -/
theorem utf8Size_of_mem_writeInt {number : Int} {character : Char}
    (inside : character ∈ (writeInt number).toList) : character.utf8Size = 1 := by
  rw [Char.utf8Size_eq_one_iff, UInt32.le_iff_toNat_le]
  rcases eq_minus_or_isDigit_of_mem_writeInt inside with rfl | digit
  · decide
  · have := ((isDigit_iff character).mp digit).2
    exact Nat.le_trans this (by decide)

/-! ## Cut digits -/

/-- The first digits of a number are the digits of what is left of it when as many digits as
are missing are divided off. -/
theorem take_toDigits {number count : Nat} (some : 0 < count)
    (short : count ≤ (Nat.toDigits 10 number).length) :
    (Nat.toDigits 10 number).take count =
      Nat.toDigits 10 (number / 10 ^ ((Nat.toDigits 10 number).length - count)) := by
  induction number using Nat.strongRecOn with
  | ind number ih =>
      rcases Nat.eq_or_lt_of_le short with full | missing
      · rw [full, List.take_length, Nat.sub_self, Nat.pow_zero, Nat.div_one]
      · have large : 10 ≤ number := by
          refine Nat.le_of_not_lt fun small => ?_
          have one : (Nat.toDigits 10 number).length ≤ 1 :=
            (Nat.length_toDigits_le_iff (by decide) (by decide)).mpr (by simpa using small)
          omega
        have last := Nat.toDigits_of_base_le (by decide : 1 < 10) large
        have length : (Nat.toDigits 10 number).length =
            (Nat.toDigits 10 (number / 10)).length + 1 := by
          rw [last, List.length_append, List.length_singleton]
        have front : count ≤ (Nat.toDigits 10 (number / 10)).length := by omega
        rw [length, last, List.take_append_of_le_length front, ih _ (by omega) front,
          Nat.div_div_eq_div_mul, ← Nat.pow_succ', Nat.succ_sub front]

/-- A number with more digits than are divided off is not used up. -/
theorem div_pos_of_lt_length_toDigits {number places : Nat} (some : 0 < number)
    (more : places < (Nat.toDigits 10 number).length) : 0 < number / 10 ^ places := by
  refine Nat.div_pos (Nat.le_of_not_lt fun small => ?_) (Nat.pow_pos (by decide))
  cases places with
  | zero => exact absurd small (by simpa using Nat.ne_of_gt some)
  | succ places =>
      have few := (Nat.length_toDigits_le_iff (by decide : 1 < 10) (by simp)).mpr small
      omega

theorem writeInt_natCast (magnitude : Nat) :
    (writeInt magnitude).toList = Nat.toDigits 10 magnitude := by
  rw [← Int.ofNat_eq_natCast, writeInt, String.toList_ofList]

theorem writeInt_neg {magnitude : Nat} (some : 0 < magnitude) :
    (writeInt (-(magnitude : Int))).toList = '-' :: Nat.toDigits 10 magnitude := by
  obtain ⟨below, rfl⟩ := Nat.exists_eq_succ_of_ne_zero (Nat.ne_of_gt some)
  rw [show -((below + 1 : Nat) : Int) = .negSucc below from rfl, writeInt, String.toList_ofList]

/-- The first characters of an integer, one of them a digit, write what is left of it when the
digits that are missing are divided off. -/
theorem take_writeInt {number : Int} {count : Nat} (some : 0 < count)
    (digit : number < 0 → 1 < count) (short : count ≤ (writeInt number).toList.length) :
    (writeInt number).toList.take count =
      (writeInt (number.tdiv (10 ^ ((writeInt number).toList.length - count) : Nat))).toList := by
  rcases Int.lt_or_le number 0 with negative | positive
  · obtain ⟨magnitude, rfl⟩ : ∃ magnitude : Nat, number = -(magnitude : Int) :=
      ⟨number.natAbs, by omega⟩
    have present : 0 < magnitude := by omega
    obtain ⟨digits, rfl⟩ : ∃ digits, count = digits + 1 := ⟨count - 1, by omega⟩
    have one := digit negative
    rw [writeInt_neg present, List.length_cons] at *
    have rest : (Nat.toDigits 10 magnitude).length + 1 - (digits + 1) =
      (Nat.toDigits 10 magnitude).length - digits := by omega
    have left : 0 < magnitude / 10 ^ ((Nat.toDigits 10 magnitude).length - digits) :=
      div_pos_of_lt_length_toDigits present (by omega)
    rw [List.take_succ_cons, take_toDigits (by omega) (by omega), rest, Int.neg_tdiv,
      ← Int.ofNat_tdiv, writeInt_neg left]
  · obtain ⟨magnitude, rfl⟩ := Int.eq_ofNat_of_zero_le positive
    rw [writeInt_natCast] at *
    rw [take_toDigits some short, ← Int.ofNat_tdiv, writeInt_natCast]

/-! ## Blanks -/

/-- A text without blanks has none to drop. -/
theorem trim_of_forall_not_isBlank {characters : List Char}
    (filled : ∀ character ∈ characters, isBlank character = false) :
    trim characters = characters := by
  have front : characters.dropWhile isBlank = characters := by
    cases characters with
    | nil => rfl
    | cons first rest => simp [filled first (by simp)]
  have back : characters.reverse.dropWhile isBlank = characters.reverse := by
    cases reversed : characters.reverse with
    | nil => rfl
    | cons last rest =>
        have inside : last ∈ characters := by
          rw [← List.mem_reverse, reversed]
          exact List.mem_cons_self
        simp [filled last inside]
  rw [trim, front, back, List.reverse_reverse]

/-- Blanks around a text do not count. -/
theorem trim_surrounded {before after : List Char}
    (blankBefore : ∀ character ∈ before, isBlank character = true)
    (blankAfter : ∀ character ∈ after, isBlank character = true) (characters : List Char) :
    trim (before ++ (characters ++ after)) = trim characters := by
  have none : after.dropWhile isBlank = [] := List.dropWhile_eq_nil_iff.mpr blankAfter
  unfold trim
  rw [List.dropWhile_append_of_pos blankBefore, List.dropWhile_append]
  split
  next blank => rw [none, List.isEmpty_iff.mp blank]
  next =>
    rw [List.reverse_append, List.dropWhile_append_of_pos]
    simpa using blankAfter

theorem isBlank_of_isDigit {character : Char} (digit : character.isDigit = true) :
    isBlank character = false := by
  rw [isDigit_iff] at digit
  simp only [isBlank, Bool.or_eq_false_iff, Bool.and_eq_false_iff, decide_eq_false_iff_not,
    beq_eq_false_iff_ne]
  omega

/-- There are no blanks in a decimal integer. -/
theorem trim_writeInt (number : Int) :
    trim (writeInt number).toList = (writeInt number).toList := by
  apply trim_of_forall_not_isBlank
  intro character inside
  rcases eq_minus_or_isDigit_of_mem_writeInt inside with rfl | digit
  · decide
  · exact isBlank_of_isDigit digit

end ProcessImage.Text

namespace ProcessImage

/-- No kind has integers of more than 64 bits. -/
theorem IntegerKind.bounds (kind : IntegerKind) :
    -18446744073709551616 < kind.least ∧ kind.greatest < 18446744073709551616 := by
  cases kind <;> decide

/-- What is left of an integer when some of it is divided off belongs to every kind of the
integer. -/
theorem IntegerKind.Contains.tdiv {kind : IntegerKind} {number : Int}
    (member : kind.Contains number) (divisor : Nat) : kind.Contains (number.tdiv divisor) := by
  have zero := kind.contains_zero
  unfold IntegerKind.Contains at *
  rcases Int.lt_or_le number 0 with negative | positive
  · obtain ⟨magnitude, rfl⟩ : ∃ magnitude : Nat, number = -(magnitude : Int) :=
      ⟨number.natAbs, by omega⟩
    have less := Nat.div_le_self magnitude divisor
    rw [Int.neg_tdiv, ← Int.ofNat_tdiv]
    generalize magnitude / divisor = left at less ⊢
    omega
  · obtain ⟨magnitude, rfl⟩ := Int.eq_ofNat_of_zero_le positive
    have less := Nat.div_le_self magnitude divisor
    rw [← Int.ofNat_tdiv]
    generalize magnitude / divisor = left at less ⊢
    omega

/-- The decimal text of an integer of any kind stands for that integer. -/
theorem Scalar.integral?_writeInt {kind : IntegerKind} {number : Int}
    (member : kind.Contains number) :
    (string (Text.writeInt number)).integral? = some number := by
  have inRange : Text.readsAsInt number := by
    have wide : 18446744073709551616 < Nat.pow 2 127 := by decide
    have bounds := kind.bounds
    unfold IntegerKind.Contains at member
    unfold Text.readsAsInt
    omega
  have literal : Text.literalInt? (Text.writeInt number).toList = some number := by
    rw [Text.literalInt?, Text.readInt?_writeInt, Option.filter_some,
      if_pos (by simpa using inRange)]
  simp only [integral?, Text.trim_writeInt, literal]

end ProcessImage
