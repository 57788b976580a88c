import ProcessImage.Proofs.Legacy.RoundTrip
import ProcessImage.Proofs.Wire.Marks
import ProcessImage.Proofs.Wire.RoundTrip
import ProcessImage.Variable

/-!
# Reading back what was sent

What a variable sends for a value, it decodes as that value in its type.  On the
structured protocol characters come back as bytes, and on the legacy protocol the
slots have to hold all the data.

A payload that was made for a value is about the value as a whole: its tree is
marked at the root, and a record has no marks.  When it comes back as an update, it
leaves nothing of the value before.
-/

namespace ProcessImage

open Wire Arena

/-! ## Trees -/

/-- The tree of a value that keeps what it announces is read as that value, and is
listed as a whole. -/
theorem Wire.Tree.read_of_ofValue {value : Value} (present : value.isEmpty = false)
    (regular : value.Regular) {tree : Tree} (made : ofValue value = .ok tree) :
    tree.read = .ok value.charsAsBytes ∧ tree.changedPaths = [""] := by
  obtain ⟨schema, root, after, isSchema, isRoot, sound, found, written, rfl⟩ :=
    exists_of_ofValue present made
  obtain ⟨other, taken, read⟩ := takes_of_regular regular isSchema _ root sound found
  obtain rfl : after = other := congrArg Prod.fst (written.symm.trans taken)
  have evolution := evolution_assign value sound root
  rw [written] at evolution
  have rootAfter : after.root = some root := evolution.root.trans isRoot
  have foundAfter := evolution.growth.schema found
  refine ⟨(read_markRoot after rootAfter foundAfter).trans read, ?_⟩
  have marked : after.markRoot = after.mark root := by simp [markRoot, rootAfter]
  have soundMarked := (evolution_mark evolution.sound root).sound
  have foundMarked : schemaAt (after.mark root).nodes root = some schema := by
    rw [schemaAt_mark]
    exact foundAfter
  have isMarked : MarkedAt (after.mark root).nodes root := by
    obtain ⟨content, changed, nodeEq⟩ := exists_node foundAfter
    exact ⟨⟨schema, content, true⟩, by simp [mark, Array.getElem?_modify, nodeEq], rfl⟩
  have rootMarked : (after.mark root).root = some root := rootAfter
  rw [marked, Tree.changedPaths, branch?_eq_some rootMarked foundMarked]
  exact Branch.changedPaths_of_isMarked
    ((Branch.isMarked_ofNode_iff soundMarked foundMarked).mpr isMarked) ""

/-! ## Records -/

namespace Legacy.Layout

variable {layout : Layout} {type : DataType} {value : Value} {record : Record}

/-- A record that has bytes is read back, as the value in the type when the slots hold
all its data. -/
theorem read_of_write (wide : 0 < layout.stringWidth)
    (written : layout.write type value = .ok record) (present : record.isEmpty = false) :
    ∃ coerced shown, value.coerce? type = some coerced ∧
      layout.read type record.count (some record.bytes) = .ok shown ∧
      ((∀ datum ∈ dataOf coerced, layout.Holds datum) → shown = coerced) := by
  obtain ⟨kind, coerced, rows, carries, fits, isRows, count, bytes⟩ :=
    exists_rows_of_write written present
  obtain ⟨assembled, kinds⟩ := assemble_dataOf carries fits
  have positive := slotWidth_pos wide (.ofKind kind)
  have sameLength : rows.length = (dataOf coerced).length :=
    (Value.exists_source_of_mapM isRows).1
  refine ⟨coerced, _, fits, read_some positive carries _ _, fun held => ?_⟩
  obtain ⟨sameRows, isSame, _, _, back⟩ :=
    exists_rows kinds fun datum inside => (held datum inside).returns
  obtain rfl := Option.some.inj (isRows.symm.trans isSame)
  rw [count, bytes, ← sameLength, readData_flatMap_fill positive, back]
  exact assembled

end Legacy.Layout

/-! ## Variables -/

namespace Variable

variable {pv : Variable} {value : Value} {payload : Payload}

/-- What a variable makes of a value that it sends and that comes back to it. -/
structure ReadsBack (pv : Variable) (protocol : Protocol) (value shown : Value) : Prop where
  /-- What is shown was decoded from what was sent, and no state of a cache merges it
  into the value before. -/
  echoed : ∃ payload changed, pv.encode protocol value = .ok (some payload) ∧
    pv.decode payload = .ok (shown, changed) ∧
    ∀ state : Cache.State, state.isPartial shown changed = false
  structured : protocol = .structured →
    ∃ coerced, value.coerce? pv.type = some coerced ∧ shown = coerced.charsAsBytes
  legacy : protocol = .legacy →
    ∃ coerced, value.coerce? pv.type = some coerced ∧
      ((∀ datum ∈ Legacy.Layout.dataOf coerced, pv.settings.layout.Holds datum) →
        shown = coerced)

/-- What is sent on the structured protocol comes back as the value in the type, with
bytes for characters. -/
theorem readsBack_structured (declared : pv.type ≠ .empty) (distinct : pv.type.DistinctNames)
    (encoded : pv.encode .structured value = .ok (some payload)) :
    ∃ shown, pv.ReadsBack .structured value shown := by
  obtain ⟨coerced, converted, rest⟩ := Outcome.bind_eq_ok_iff.mp encoded
  obtain ⟨tree, made, same⟩ := Outcome.bind_eq_ok_iff.mp rest
  cases same
  have fits : value.coerce? pv.type = some coerced := by
    unfold Variable.converted at converted
    have hasType : pv.type.isEmpty = false := by
      cases isType : pv.type with
      | empty => exact absurd isType declared
      | _ => rfl
    rw [hasType] at converted
    cases fit : value.coerce? pv.type with
    | none => simp [fit] at converted
    | some other => simpa [fit] using converted
  obtain ⟨isTyped, typed⟩ := Value.typed_of_coerce? fits
  have present : coerced.isEmpty = false := by
    cases coerced with
    | empty => exact absurd isTyped.symm declared
    | _ => rfl
  have conforming := Tree.conforming_of_ofValue present typed (isTyped ▸ distinct) made
  obtain ⟨read, whole⟩ := Tree.read_of_ofValue present conforming.regular made
  refine ⟨coerced.charsAsBytes, ⟨_, [[]], encoded, ?_, fun state => ?_⟩, fun _ => ?_, nofun⟩
  · simp [decode, read, whole, Path.ofText]
  · simp [Cache.State.isPartial]
  · exact ⟨coerced, fits, rfl⟩

/-- What is sent on the legacy protocol comes back as the value in the type, when the
slots hold all its data. -/
theorem readsBack_legacy (valid : validate .legacy pv.type pv.settings = .ok ())
    (encoded : pv.encode .legacy value = .ok (some payload)) :
    ∃ shown, pv.ReadsBack .legacy value shown := by
  have wide : 0 < pv.settings.layout.stringWidth := by
    obtain ⟨_, checked, _⟩ := Outcome.bind_eq_ok_iff.mp valid
    exact Settings.stringWidth_pos checked
  obtain ⟨record, written, made⟩ := Outcome.bind_eq_ok_iff.mp encoded
  split at made
  next => cases made
  next present =>
    cases made
    obtain ⟨coerced, shown, fits, read, held⟩ :=
      Legacy.Layout.read_of_write wide written (Bool.eq_false_iff.mpr present)
    refine ⟨shown, ⟨_, [], encoded, ?_, fun state => ?_⟩, nofun, fun _ => ⟨coerced, fits, held⟩⟩
    · simp [decode, read]
    · simp [Cache.State.isPartial]

end Variable

end ProcessImage
