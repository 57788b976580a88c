import Mathlib.Data.List.Forall2
import ProcessImage.Proofs.Legacy.RoundTrip
import ProcessImage.Proofs.Text.Cut

/-!
# Texts in slots

A slot keeps as many bytes of a text as it is wide, and is filled up with zero bytes.  What
is read back ends before the first character of number zero, if there is one among the whole
characters that are kept; otherwise a character that was split at the end of the slot is
read as one replacement.
-/

namespace ProcessImage

/-! ## One text -/

namespace Text

/-- What is read of a text of which a number of bytes was kept. -/
inductive Survives (width : Nat) (text : List Char) : List Char → Prop
  | ended {front : List Char} (longest : IsFitting width text front) (ends : '\x00' ∈ front) :
      Survives width text (front.takeWhile (· ≠ '\x00'))
  | split {front : List Char} (longest : IsFitting width text front) (whole : '\x00' ∉ front)
      (splits : Splits width text) : Survives width text (front ++ [replacement])
  | kept {front : List Char} (longest : IsFitting width text front) (whole : '\x00' ∉ front)
      (unsplit : ¬ Splits width text) : Survives width text front

end Text

namespace Legacy

open Text

/-- A slot in which no text ends holds the whole characters that fit, and a replacement where
one was split. -/
theorem slotText_fill_of_whole {width : Nat} {text : String} {front : List Char}
    (longest : IsFitting width text.toList front) (whole : '\x00' ∉ front) :
    (¬ Splits width text.toList ∧ slotText (fill width (encode text)) = String.ofList front) ∨
      (Splits width text.toList ∧
        slotText (fill width (encode text)) = String.ofList (front ++ [replacement])) := by
  have nonzero : 0 ∉ (encode text).take width := longest.zero_not_mem whole
  have read : slotText (fill width (encode text)) =
      String.ofList (decodeLossy ((encode text).take width)) := by
    rw [slotText, takeWhile_fill nonzero, decode]
  rw [read]
  exact longest.decodeLossy_take.imp (.imp_right (congrArg _)) (.imp_right (congrArg _))

/-- A slot in which a text ends holds what stands before its end. -/
theorem slotText_fill_of_ended {width : Nat} {text : String} {front : List Char}
    (longest : IsFitting width text.toList front) (ends : '\x00' ∈ front) :
    slotText (fill width (encode text)) = String.ofList (front.takeWhile (· ≠ '\x00')) := by
  have kept : ∃ rest, (encode text).take width =
      front.flatMap String.utf8EncodeChar ++ rest := by
    rcases longest.take_bytes with ⟨-, kept⟩ | ⟨-, next, count, -, -, kept⟩
    · exact ⟨[], by rw [encode, kept, List.append_nil]⟩
    · exact ⟨_, kept⟩
  obtain ⟨rest, kept⟩ := kept
  have back := decode_encode (String.ofList (front.takeWhile (· ≠ '\x00')))
  rw [encode, String.toList_ofList] at back
  rw [slotText, fill, kept, List.append_assoc, takeWhile_bytes ends, back]

/-- A slot of characters of one byte holds as many of them as it is wide. -/
theorem slotText_fill_of_single {width : Nat} {text : String}
    (single : ∀ character ∈ text.toList, character.utf8Size = 1) (whole : '\x00' ∉ text.toList) :
    slotText (fill width (encode text)) = String.ofList (text.toList.take width) := by
  have kept : '\x00' ∉ text.toList.take width := mt List.mem_of_mem_take whole
  rcases slotText_fill_of_whole (isFitting_take single width) kept with ⟨-, read⟩ | ⟨splits, -⟩
  · exact read
  · exact absurd splits (not_splits_of_single single width)

/-- What is read from the slot of a text. -/
theorem survives_slotText (width : Nat) (text : String) :
    Survives width text.toList (slotText (fill width (encode text))).toList := by
  have longest := isFitting_fitting width text.toList
  by_cases ends : '\x00' ∈ fitting width text.toList
  · rw [slotText_fill_of_ended longest ends, String.toList_ofList]
    exact .ended longest ends
  · rcases slotText_fill_of_whole longest ends with ⟨unsplit, read⟩ | ⟨splits, read⟩
    · rw [read, String.toList_ofList]
      exact .kept longest ends unsplit
    · rw [read, String.toList_ofList]
      exact .split longest ends splits

/-! ## Records of texts -/

/-- All data have bytes where they travel as text. -/
theorem mapM_slotBytes_string (data : List Scalar) :
    data.mapM (slotBytes .string) = some (data.map fun datum => encode datum.text) :=
  List.mapM_pure

namespace Layout

/-- The record of texts has one slot for each: as many bytes of the text as the slot is wide,
and zero bytes up to there.  It says that a text was cut exactly when there is one with more
bytes.  What is read back is what survives of the texts, one by one. -/
theorem read_write_texts {layout : Layout} (wide : 0 < layout.stringWidth) {type : DataType}
    (carries : type.elementKind? = some .string) {value coerced : Value}
    (fits : value.coerce? type = some coerced) {texts : List String}
    (held : dataOf coerced = texts.map .string) :
    ∃ record shown, layout.write type value = .ok record ∧ record.tag = .string ∧
      record.count = texts.length ∧
      record.bytes = texts.flatMap (fun text => (encode text).take layout.stringWidth ++
        List.replicate (layout.stringWidth - (encode text).length) 0) ∧
      (record.truncated = true ↔ ∃ text ∈ texts, layout.stringWidth < (encode text).length) ∧
      layout.read type record.count (some record.bytes) =
        .ok (assemble type (shown.map .string)) ∧
      List.Forall₂ (fun text back => Survives layout.stringWidth text.toList back.toList)
        texts shown := by
  have isRows : (dataOf coerced).mapM (slotBytes .string) = some (texts.map encode) := by
    rw [held, mapM_slotBytes_string, List.map_map]
    rfl
  obtain ⟨record, written, isTag, count, bytes, truncated, read⟩ :=
    exists_record_of_rows (slotWidth_pos wide (.ofKind .string)) carries fits isRows
  have back : ((texts.map encode).map (fill layout.stringWidth)).mapM (readSlot .string .string) =
      some ((texts.map fun text => slotText (fill layout.stringWidth (encode text))).map
        .string) := by
    rw [Value.mapM_eq_some_iff, List.map_map, List.map_map, List.map_map, List.map_map]
    rfl
  refine ⟨record, texts.map fun text => slotText (fill layout.stringWidth (encode text)), written,
    isTag, by rw [count, held, List.length_map], ?_, ?_, ?_, ?_⟩
  · rw [bytes, List.flatMap_map]
    rfl
  · simpa [Tag.ofKind, slotWidth] using truncated
  · rw [read, Tag.ofKind, slotWidth, back, Option.map_some, Option.getD_some]
  · rw [List.forall₂_map_right_iff, List.forall₂_same]
    exact fun text _ => survives_slotText _ text

/-- Of three labels in slots of four bytes the first is split, the second ends early, and the
third is cut between two characters. -/
theorem read_write_texts_labels :
    let layout : Layout := ⟨4⟩
    let type := DataType.fixedArrayOf (.scalar .string) 3
    let texts := ["aéé", "p\x00q", "level"]
    let value := Value.array none .empty none (texts.map fun text => .scalar (.string text))
    let coerced := Value.array none (.scalar .string) (some 3)
      (texts.map fun text => .scalar (.string text))
    0 < layout.stringWidth ∧ type.elementKind? = some .string ∧
      value.coerce? type = some coerced ∧ dataOf coerced = texts.map .string ∧
      ∃ record shown, layout.write type value = .ok record ∧
        record.bytes = [0x61, 0xC3, 0xA9, 0xC3, 0x70, 0, 0x71, 0, 0x6C, 0x65, 0x76, 0x65] ∧
        record.truncated = true ∧
        layout.read type 3 (some record.bytes) = .ok (assemble type (shown.map .string)) ∧
        List.Forall₂ (fun text back => Survives 4 text.toList back.toList) texts shown := by
  intro layout type texts value coerced
  have wide : 0 < layout.stringWidth := by decide
  have carries : type.elementKind? = some .string := rfl
  have fits : value.coerce? type = some coerced := rfl
  have held : dataOf coerced = texts.map .string := rfl
  obtain ⟨record, shown, written, _, count, bytes, truncated, read, survive⟩ :=
    read_write_texts wide carries fits held
  rw [count] at read
  have isBytes : record.bytes =
      [0x61, 0xC3, 0xA9, 0xC3, 0x70, 0, 0x71, 0, 0x6C, 0x65, 0x76, 0x65] := by
    rw [bytes]
    decide
  have long : 4 < (encode "aéé").length := by decide
  exact ⟨wide, carries, fits, held, record, shown, written, isBytes,
    truncated.mpr ⟨"aéé", List.mem_cons_self, long⟩, read, survive⟩

end Layout

end Legacy

end ProcessImage
