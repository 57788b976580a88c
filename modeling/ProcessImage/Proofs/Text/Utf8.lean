import ProcessImage.Text.Utf8

/-!
# Texts that survive as bytes

The bytes of a character announce their number and are recognised one by one, so
lenient reading gives back every text that was written.  A text has a zero byte
exactly where it has the character of that number.
-/

namespace ProcessImage.Text

/-! ## Classes of bytes by their numbers -/

namespace Lead

/-- The class of a first byte by its number. -/
theorem ofByte_eq (byte : UInt8) :
    ofByte byte =
      if byte.toNat < 0x80 then .one
      else if 0xC2 ≤ byte.toNat ∧ byte.toNat ≤ 0xDF then .two
      else if 0xE0 ≤ byte.toNat ∧ byte.toNat ≤ 0xEF then .three
      else if 0xF0 ≤ byte.toNat ∧ byte.toNat ≤ 0xF4 then .four
      else .invalid := by
  simp only [ofByte, UInt8.lt_iff_toNat_lt, UInt8.le_iff_toNat_le]
  rfl

end Lead

theorem isContinuation_iff (byte : UInt8) :
    isContinuation byte = true ↔ 0x80 ≤ byte.toNat ∧ byte.toNat ≤ 0xBF := by
  simp only [isContinuation, UInt8.le_iff_toNat_le, Bool.and_eq_true, decide_eq_true_eq]
  rfl

/-- What may follow a first byte, by numbers. -/
theorem mayFollow_iff (lead byte : UInt8) :
    mayFollow lead byte = true ↔
      0x80 ≤ byte.toNat ∧ byte.toNat ≤ 0xBF ∧
        (lead.toNat = 0xE0 → 0xA0 ≤ byte.toNat) ∧ (lead.toNat = 0xED → byte.toNat ≤ 0x9F) ∧
        (lead.toNat = 0xF0 → 0x90 ≤ byte.toNat) ∧ (lead.toNat = 0xF4 → byte.toNat ≤ 0x8F) := by
  have constants : (0xE0 : UInt8).toNat = 0xE0 ∧ (0xED : UInt8).toNat = 0xED ∧
      (0xF0 : UInt8).toNat = 0xF0 ∧ (0xF4 : UInt8).toNat = 0xF4 ∧ (0xA0 : UInt8).toNat = 0xA0 ∧
      (0x90 : UInt8).toNat = 0x90 ∧ (0x80 : UInt8).toNat = 0x80 ∧ (0xBF : UInt8).toNat = 0xBF ∧
      (0x9F : UInt8).toNat = 0x9F ∧ (0x8F : UInt8).toNat = 0x8F := by decide
  obtain ⟨e0, ed, f0, f4, a0, n90, n80, bf, n9f, n8f⟩ := constants
  unfold mayFollow
  simp only [← UInt8.toNat_inj, e0, ed, f0, f4]
  split
  · simp only [UInt8.le_iff_toNat_le, Bool.and_eq_true, decide_eq_true_eq, a0, bf]
    omega
  split
  · simp only [UInt8.le_iff_toNat_le, Bool.and_eq_true, decide_eq_true_eq, n80, n9f]
    omega
  split
  · simp only [UInt8.le_iff_toNat_le, Bool.and_eq_true, decide_eq_true_eq, n90, bf]
    omega
  split
  · simp only [UInt8.le_iff_toNat_le, Bool.and_eq_true, decide_eq_true_eq, n80, n8f]
    omega
  · rw [isContinuation_iff]
    omega

/-! ## Reading one character -/

theorem decodeLossy_one {lead : UInt8} (first : Lead.ofByte lead = .one) (rest : List UInt8) :
    decodeLossy (lead :: rest) = Char.ofNat lead.toNat :: decodeLossy rest := by
  rw [decodeLossy.eq_def]
  simp only [first]

theorem decodeLossy_two {lead second : UInt8} (first : Lead.ofByte lead = .two)
    (follows : mayFollow lead second = true) (rest : List UInt8) :
    decodeLossy (lead :: second :: rest) =
      Char.ofNat (lead.toNat % 32 * 64 + payload second) :: decodeLossy rest := by
  rw [decodeLossy.eq_def]
  simp only [first, follows, if_true]

theorem decodeLossy_three {lead second third : UInt8} (first : Lead.ofByte lead = .three)
    (follows : mayFollow lead second = true) (continues : isContinuation third = true)
    (rest : List UInt8) :
    decodeLossy (lead :: second :: third :: rest) =
      Char.ofNat ((lead.toNat % 16 * 64 + payload second) * 64 + payload third) ::
        decodeLossy rest := by
  rw [decodeLossy.eq_def]
  simp only [first, follows, continues, if_true]

theorem decodeLossy_four {lead second third fourth : UInt8} (first : Lead.ofByte lead = .four)
    (follows : mayFollow lead second = true) (continues : isContinuation third = true)
    (ends : isContinuation fourth = true) (rest : List UInt8) :
    decodeLossy (lead :: second :: third :: fourth :: rest) =
      Char.ofNat (((lead.toNat % 8 * 64 + payload second) * 64 + payload third) * 64 +
        payload fourth) :: decodeLossy rest := by
  rw [decodeLossy.eq_def]
  simp only [first, follows, continues, ends, if_true]

/-- The number of a character is no surrogate and has at most 21 bits. -/
theorem toNat_ranges (character : Char) :
    character.toNat < 0xD800 ∨ (0xDFFF < character.toNat ∧ character.toNat < 0x110000) :=
  character.valid

/-- How the bytes of a character tell its number: the first one announces how many there
are, and the others continue it. -/
inductive Spells (character : Char) : List UInt8 → Prop
  | one {lead : UInt8} (first : Lead.ofByte lead = .one)
      (number : Char.ofNat lead.toNat = character) : Spells character [lead]
  | two {lead second : UInt8} (first : Lead.ofByte lead = .two)
      (follows : mayFollow lead second = true)
      (number : Char.ofNat (lead.toNat % 32 * 64 + payload second) = character) :
      Spells character [lead, second]
  | three {lead second third : UInt8} (first : Lead.ofByte lead = .three)
      (follows : mayFollow lead second = true) (continues : isContinuation third = true)
      (number : Char.ofNat ((lead.toNat % 16 * 64 + payload second) * 64 + payload third) =
        character) :
      Spells character [lead, second, third]
  | four {lead second third fourth : UInt8} (first : Lead.ofByte lead = .four)
      (follows : mayFollow lead second = true) (continues : isContinuation third = true)
      (ends : isContinuation fourth = true)
      (number : Char.ofNat (((lead.toNat % 8 * 64 + payload second) * 64 + payload third) * 64 +
        payload fourth) = character) :
      Spells character [lead, second, third, fourth]

/-- The bytes of a character spell it. -/
theorem spells_utf8EncodeChar (character : Char) :
    Spells character (String.utf8EncodeChar character) := by
  have ranges := toNat_ranges character
  have same : Char.ofNat character.toNat = character := Char.ofNat_toNat character
  have number : character.val.toNat = character.toNat := rfl
  simp only [String.utf8EncodeChar, number]
  generalize character.toNat = code at ranges same
  have bytes : UInt8.size = 256 := rfl
  split
  case isTrue one =>
    have lead : (UInt8.ofNat code).toNat = code := UInt8.toNat_ofNat_of_lt' (by omega)
    refine .one ?_ (by rw [lead, same])
    rw [Lead.ofByte_eq, lead, if_pos (by omega)]
  split
  case isTrue two =>
    have lead : (UInt8.ofNat (code / 64 % 32 + 192)).toNat = code / 64 % 32 + 192 :=
      UInt8.toNat_ofNat_of_lt' (by omega)
    have second : (UInt8.ofNat (code % 64 + 128)).toNat = code % 64 + 128 :=
      UInt8.toNat_ofNat_of_lt' (by omega)
    have whole : (code / 64 % 32 + 192) % 32 * 64 + (code % 64 + 128) % 64 = code := by omega
    refine .two ?_ ((mayFollow_iff _ _).mpr (by omega)) (by rw [payload, lead, second, whole, same])
    rw [Lead.ofByte_eq, lead, if_neg (by omega), if_pos (by omega)]
  split
  case isTrue three =>
    have lead : (UInt8.ofNat (code / 4096 % 16 + 224)).toNat = code / 4096 % 16 + 224 :=
      UInt8.toNat_ofNat_of_lt' (by omega)
    have second : (UInt8.ofNat (code / 64 % 64 + 128)).toNat = code / 64 % 64 + 128 :=
      UInt8.toNat_ofNat_of_lt' (by omega)
    have third : (UInt8.ofNat (code % 64 + 128)).toNat = code % 64 + 128 :=
      UInt8.toNat_ofNat_of_lt' (by omega)
    have whole : ((code / 4096 % 16 + 224) % 16 * 64 + (code / 64 % 64 + 128) % 64) * 64 +
        (code % 64 + 128) % 64 = code := by omega
    refine .three ?_ ((mayFollow_iff _ _).mpr (by omega)) ((isContinuation_iff _).mpr (by omega))
      (by rw [payload, payload, lead, second, third, whole, same])
    rw [Lead.ofByte_eq, lead, if_neg (by omega), if_neg (by omega), if_pos (by omega)]
  case isFalse four =>
    have lead : (UInt8.ofNat (code / 262144 % 8 + 240)).toNat = code / 262144 % 8 + 240 :=
      UInt8.toNat_ofNat_of_lt' (by omega)
    have second : (UInt8.ofNat (code / 4096 % 64 + 128)).toNat = code / 4096 % 64 + 128 :=
      UInt8.toNat_ofNat_of_lt' (by omega)
    have third : (UInt8.ofNat (code / 64 % 64 + 128)).toNat = code / 64 % 64 + 128 :=
      UInt8.toNat_ofNat_of_lt' (by omega)
    have fourth : (UInt8.ofNat (code % 64 + 128)).toNat = code % 64 + 128 :=
      UInt8.toNat_ofNat_of_lt' (by omega)
    have whole : (((code / 262144 % 8 + 240) % 8 * 64 + (code / 4096 % 64 + 128) % 64) * 64 +
        (code / 64 % 64 + 128) % 64) * 64 + (code % 64 + 128) % 64 = code := by omega
    refine .four ?_ ((mayFollow_iff _ _).mpr (by omega)) ((isContinuation_iff _).mpr (by omega))
      ((isContinuation_iff _).mpr (by omega))
      (by rw [payload, payload, payload, lead, second, third, fourth, whole, same])
    rw [Lead.ofByte_eq, lead, if_neg (by omega), if_neg (by omega), if_neg (by omega),
      if_pos (by omega)]

namespace Spells

variable {character : Char} {bytes : List UInt8}

/-- Bytes that spell a character are read as that character, whatever follows. -/
theorem decodeLossy_append (spells : Spells character bytes) (rest : List UInt8) :
    decodeLossy (bytes ++ rest) = character :: decodeLossy rest := by
  cases spells with
  | one first number => exact (decodeLossy_one first rest).trans (by rw [number])
  | two first follows number => exact (decodeLossy_two first follows rest).trans (by rw [number])
  | three first follows continues number =>
      exact (decodeLossy_three first follows continues rest).trans (by rw [number])
  | four first follows continues ends number =>
      exact (decodeLossy_four first follows continues ends rest).trans (by rw [number])

/-- Bytes that begin a character but do not complete it are read as one replacement. -/
theorem decodeLossy_take (spells : Spells character bytes) {count : Nat} (some : 0 < count)
    (short : count < bytes.length) : decodeLossy (bytes.take count) = [replacement] := by
  cases spells with
  | one first number => exact absurd short (by simp; omega)
  | two first follows number =>
      obtain rfl : count = 1 := by simp at short; omega
      simp [decodeLossy.eq_def, first]
  | three first follows continues number =>
      obtain rfl | rfl : count = 1 ∨ count = 2 := by simp at short; omega
      · simp [decodeLossy.eq_def, first]
      · simp [decodeLossy.eq_def, first, follows]
  | four first follows continues ends number =>
      obtain rfl | rfl | rfl : count = 1 ∨ count = 2 ∨ count = 3 := by simp at short; omega
      · simp [decodeLossy.eq_def, first]
      · simp [decodeLossy.eq_def, first, follows]
      · simp [decodeLossy.eq_def, first, follows, continues]

end Spells

/-- Bytes of characters are read as these characters, whatever follows. -/
theorem decodeLossy_flatMap_append (characters : List Char) (rest : List UInt8) :
    decodeLossy (characters.flatMap String.utf8EncodeChar ++ rest) =
      characters ++ decodeLossy rest := by
  induction characters with
  | nil => rfl
  | cons character others ih =>
      rw [List.flatMap_cons, List.append_assoc,
        (spells_utf8EncodeChar character).decodeLossy_append, ih, List.cons_append]

/-- A text is read back from its bytes. -/
theorem decode_encode (text : String) : decode (encode text) = text := by
  have whole := decodeLossy_flatMap_append text.toList []
  rw [List.append_nil, decodeLossy, List.append_nil] at whole
  rw [decode, encode, whole, String.ofList_toList]

/-! ## Zero bytes -/

/-- Only the character of number zero has a zero byte. -/
theorem zero_mem_utf8EncodeChar_iff (character : Char) :
    0 ∈ String.utf8EncodeChar character ↔ character = '\x00' := by
  have ranges := toNat_ranges character
  have number : character.val.toNat = character.toNat := rfl
  have isZero : character = '\x00' ↔ character.toNat = 0 := by
    rw [← Char.toNat_inj]
    rfl
  have zero (code : Nat) : 0 = UInt8.ofNat code ↔ code % 256 = 0 := by
    rw [← UInt8.toNat_inj, UInt8.toNat_ofNat', eq_comm]
    rfl
  rw [isZero]
  simp only [String.utf8EncodeChar, number]
  generalize character.toNat = code at ranges
  split
  · simp only [List.mem_singleton, zero]
    omega
  split
  · simp only [List.mem_cons, List.not_mem_nil, or_false, zero]
    omega
  split
  · simp only [List.mem_cons, List.not_mem_nil, or_false, zero]
    omega
  · simp only [List.mem_cons, List.not_mem_nil, or_false, zero]
    omega

/-- A text has a zero byte exactly when it has the character of number zero. -/
theorem zero_mem_encode_iff (text : String) : 0 ∈ encode text ↔ '\x00' ∈ text.toList := by
  simp only [encode, List.mem_flatMap, zero_mem_utf8EncodeChar_iff]
  exact ⟨fun ⟨_, inside, same⟩ => same ▸ inside, fun inside => ⟨_, inside, rfl⟩⟩

end ProcessImage.Text
