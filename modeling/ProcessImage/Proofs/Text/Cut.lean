import ProcessImage.Proofs.Text.Utf8

/-!
# Texts cut at a number of bytes

A text that is cut at a number of bytes keeps the whole characters that fit.  Where the cut
falls inside of a character, the bytes that are left of it are read as one replacement; they
are never taken for the end of the text, as only the character of number zero has a zero
byte, and it cannot be split.
-/

namespace ProcessImage.Text

/-! ## Whole characters that fit -/

/-- Number of bytes that characters take. -/
def byteCount (characters : List Char) : Nat :=
  (characters.flatMap String.utf8EncodeChar).length

@[simp]
theorem byteCount_nil : byteCount [] = 0 :=
  rfl

@[simp]
theorem byteCount_cons (character : Char) (rest : List Char) :
    byteCount (character :: rest) = character.utf8Size + byteCount rest := by
  simp [byteCount]

theorem byteCount_append (front rest : List Char) :
    byteCount (front ++ rest) = byteCount front + byteCount rest := by
  simp [byteCount]

/-- The longest front of a text that fits a number of bytes. -/
structure IsFitting (width : Nat) (text front : List Char) : Prop where
  isFront : front <+: text
  fits : byteCount front ≤ width
  longest : ∀ other, other <+: text → byteCount other ≤ width → other <+: front

/-- The first characters of a text, as long as they fit a number of bytes. -/
def fitting : Nat → List Char → List Char
  | _, [] => []
  | width, character :: rest =>
      if character.utf8Size ≤ width then character :: fitting (width - character.utf8Size) rest
      else []

theorem isFitting_fitting (width : Nat) (text : List Char) :
    IsFitting width text (fitting width text) := by
  induction text generalizing width with
  | nil => exact ⟨List.nil_prefix, Nat.zero_le _, fun other front _ => front⟩
  | cons character rest ih =>
      unfold fitting
      split
      next room =>
        have inner := ih (width - character.utf8Size)
        refine ⟨List.cons_prefix_cons.mpr ⟨rfl, inner.isFront⟩, ?_, fun other front fits => ?_⟩
        · have := inner.fits
          rw [byteCount_cons]
          omega
        · cases other with
          | nil => exact List.nil_prefix
          | cons first others =>
              obtain ⟨rfl, later⟩ := List.cons_prefix_cons.mp front
              rw [byteCount_cons] at fits
              exact List.cons_prefix_cons.mpr ⟨rfl, inner.longest others later (by omega)⟩
      next large =>
        refine ⟨List.nil_prefix, Nat.zero_le _, fun other front fits => ?_⟩
        cases other with
        | nil => exact List.nil_prefix
        | cons first others =>
            obtain ⟨rfl, -⟩ := List.cons_prefix_cons.mp front
            rw [byteCount_cons] at fits
            omega

/-- Whether a cut after a number of bytes falls inside of a character: there are more bytes,
and no row of whole characters ends there. -/
def Splits (width : Nat) (text : List Char) : Prop :=
  width < byteCount text ∧ ∀ front, front <+: text → byteCount front ≠ width

namespace IsFitting

variable {width : Nat} {text front : List Char}

/-- There is nothing after the front, or a character that does not fit any more. -/
theorem eq_or_exists_next (longest : IsFitting width text front) :
    text = front ∨ ∃ next rest, text = front ++ next :: rest ∧
      width < byteCount front + next.utf8Size := by
  obtain ⟨after, rfl⟩ := longest.isFront
  cases after with
  | nil => exact .inl (List.append_nil front)
  | cons next rest =>
      refine .inr ⟨next, rest, rfl, Nat.lt_of_not_le fun fits => ?_⟩
      have longer : front ++ [next] <+: front :=
        longest.longest _ (by simp) (by simpa [byteCount_append] using fits)
      have shorter := longer.length_le
      rw [List.length_append, List.length_singleton] at shorter
      omega

/-- A cut falls inside of a character when there are more bytes than those that fit as whole
characters, and also than those that are kept. -/
theorem splits_iff (longest : IsFitting width text front) :
    Splits width text ↔ byteCount front < width ∧ width < byteCount text := by
  constructor
  · rintro ⟨more, apart⟩
    exact ⟨Nat.lt_of_le_of_ne longest.fits (apart front longest.isFront), more⟩
  · rintro ⟨room, more⟩
    refine ⟨more, fun other isFront ends => ?_⟩
    obtain ⟨rest, rfl⟩ := longest.longest other isFront (Nat.le_of_eq ends)
    rw [byteCount_append] at room
    omega

/-- The bytes that are kept are those of the whole characters that fit, unless the cut falls
inside of a character; then the first bytes of that character follow, but not all. -/
theorem take_bytes (longest : IsFitting width text front) :
    (¬ Splits width text ∧ (text.flatMap String.utf8EncodeChar).take width =
        front.flatMap String.utf8EncodeChar) ∨
      (Splits width text ∧ ∃ next count, 0 < count ∧ count < (String.utf8EncodeChar next).length ∧
        (text.flatMap String.utf8EncodeChar).take width =
          front.flatMap String.utf8EncodeChar ++ (String.utf8EncodeChar next).take count) := by
  have fits := longest.fits
  rw [longest.splits_iff]
  rcases longest.eq_or_exists_next with rfl | ⟨next, rest, rfl, large⟩
  · exact .inl ⟨by omega, List.take_of_length_le fits⟩
  · have kept : ((front ++ next :: rest).flatMap String.utf8EncodeChar).take width =
        front.flatMap String.utf8EncodeChar ++
          (String.utf8EncodeChar next).take (width - byteCount front) := by
      rw [List.flatMap_append, List.flatMap_cons, List.take_append,
        List.take_of_length_le fits, List.take_append_of_le_length]
      · rfl
      · rw [String.length_utf8EncodeChar]
        unfold byteCount at large
        omega
    rw [byteCount_append, byteCount_cons]
    rcases Nat.eq_or_lt_of_le fits with full | room
    · refine .inl ⟨by omega, ?_⟩
      rw [kept, full, Nat.sub_self, List.take_zero, List.append_nil]
    · refine .inr ⟨⟨room, by omega⟩, next, width - byteCount front, by omega, ?_, kept⟩
      rw [String.length_utf8EncodeChar]
      omega

/-- The bytes that are kept are read as the whole characters that fit, and one replacement
where the cut falls inside of a character. -/
theorem decodeLossy_take (longest : IsFitting width text front) :
    (¬ Splits width text ∧
        decodeLossy ((text.flatMap String.utf8EncodeChar).take width) = front) ∨
      (Splits width text ∧
        decodeLossy ((text.flatMap String.utf8EncodeChar).take width) =
          front ++ [replacement]) := by
  rcases longest.take_bytes with ⟨unsplit, kept⟩ | ⟨splits, next, count, some, short, kept⟩
  · have whole := decodeLossy_flatMap_append front []
    rw [List.append_nil, decodeLossy, List.append_nil] at whole
    exact .inl ⟨unsplit, by rw [kept, whole]⟩
  · refine .inr ⟨splits, ?_⟩
    rw [kept, decodeLossy_flatMap_append, (spells_utf8EncodeChar next).decodeLossy_take some short]

end IsFitting

/-! ## Characters of one byte -/

theorem byteCount_of_single {text : List Char}
    (single : ∀ character ∈ text, character.utf8Size = 1) : byteCount text = text.length := by
  induction text with
  | nil => rfl
  | cons character rest ih =>
      rw [List.forall_mem_cons] at single
      rw [byteCount_cons, single.1, ih single.2, List.length_cons, Nat.add_comm]

/-- Where every character takes one byte, as many characters fit as bytes. -/
theorem isFitting_take {text : List Char} (single : ∀ character ∈ text, character.utf8Size = 1)
    (width : Nat) : IsFitting width text (text.take width) := by
  have count {front : List Char} (isFront : front <+: text) : byteCount front = front.length :=
    byteCount_of_single fun character inside => single character (isFront.subset inside)
  have isFront := List.take_prefix width text
  refine ⟨isFront, ?_, fun other isOther fits => List.prefix_take_iff.mpr ⟨isOther, ?_⟩⟩
  · rw [count isFront, List.length_take]
    exact Nat.min_le_left _ _
  · rwa [count isOther] at fits

/-- No cut falls inside of a character of one byte. -/
theorem not_splits_of_single {text : List Char}
    (single : ∀ character ∈ text, character.utf8Size = 1) (width : Nat) : ¬ Splits width text := by
  have kept : byteCount (text.take width) = (text.take width).length :=
    byteCount_of_single fun character inside => single character (List.mem_of_mem_take inside)
  rw [(isFitting_take single width).splits_iff, kept, byteCount_of_single single, List.length_take]
  omega

/-! ## The end of a text -/

/-- The bytes before the first zero byte are those of the characters before the first one of
number zero. -/
theorem takeWhile_bytes {front : List Char} (ends : '\x00' ∈ front) (rest : List UInt8) :
    (front.flatMap String.utf8EncodeChar ++ rest).takeWhile (· ≠ 0) =
      (front.takeWhile (· ≠ '\x00')).flatMap String.utf8EncodeChar := by
  induction front with
  | nil => cases ends
  | cons character others ih =>
      by_cases isEnd : character = '\x00'
      · subst isEnd
        rfl
      · have nonzero : ∀ byte ∈ String.utf8EncodeChar character, decide (byte ≠ 0) = true := by
          rintro byte inside
          rw [decide_eq_true_eq]
          rintro rfl
          exact isEnd ((zero_mem_utf8EncodeChar_iff character).mp inside)
        have later : '\x00' ∈ others := (List.mem_cons.mp ends).resolve_left (Ne.symm isEnd)
        rw [List.flatMap_cons, List.append_assoc, List.takeWhile_append_of_pos nonzero, ih later,
          List.takeWhile_cons_of_pos (by simpa using isEnd), List.flatMap_cons]

/-- There is no zero byte in what is kept when no whole character that fits has one. -/
theorem IsFitting.zero_not_mem {width : Nat} {text front : List Char}
    (longest : IsFitting width text front) (whole : '\x00' ∉ front) :
    0 ∉ (text.flatMap String.utf8EncodeChar).take width := by
  have nonzero : 0 ∉ front.flatMap String.utf8EncodeChar := by
    simpa [List.mem_flatMap, zero_mem_utf8EncodeChar_iff] using whole
  rcases longest.take_bytes with ⟨-, kept⟩ | ⟨-, next, count, some, short, kept⟩
  · rwa [kept]
  · rw [kept, List.mem_append, not_or]
    refine ⟨nonzero, fun inside => ?_⟩
    obtain rfl := (zero_mem_utf8EncodeChar_iff next).mp (List.mem_of_mem_take inside)
    exact absurd short (by simp [String.utf8EncodeChar]; omega)

end ProcessImage.Text
