import ProcessImage.Proofs.Wire.Dressing

/-!
# Values through trees and back

A conforming value has a tree of its own, and reading that tree gives the value
back, but for characters, which arrive as bytes.

A conforming value matches the schema of its type, so the schema `Takes` it: the
value can be written below any sound node of the schema, and since it wears the
type of the schema already, it is read there as it is.
-/

namespace ProcessImage.Wire

open Arena

/-- Whether a value can be written below every sound node of a schema and is
read there afterwards. -/
def Takes (schema : Schema) (value : Value) : Prop :=
  ∀ (tree : Tree) (id : Nat), Sound tree.nodes → schemaAt tree.nodes id = some schema →
    ∃ after, tree.assign id value = (after, .ok ()) ∧
      (Branch.ofNode after.nodes schema id).read = .ok value.charsAsBytes

/-- The schema of the type of a value takes that value. -/
theorem takes_of_regular {value : Value} (regular : value.Regular) {field : Option String}
    {schema : Schema} (made : Schema.ofTypeIn field value.typeOf = .ok schema) :
    Takes schema value := by
  obtain ⟨typed, complete, distinct⟩ := Value.regular_iff.mp regular
  have fits := Schema.matches_of_complete typed complete made
  have worn : value.charsAsBytes.dressed value.typeOf.charsAsBytes = value.charsAsBytes := by
    rw [← Value.typeOf_charsAsBytes]
    exact Value.dressed_of_typed (Value.typed_charsAsBytes typed)
  intro tree id sound found
  obtain ⟨after, written⟩ := fits.accepts tree id sound found
  have read := fits.readsAs distinct (Schema.describes_ofTypeIn made).type
  exact ⟨after, written, worn ▸ read tree id after sound found written⟩

namespace Tree

/-- Marks do not show in what is read. -/
theorem read_markRoot (tree : Tree) {root : Nat} (isRoot : tree.root = some root)
    {schema : Schema} (found : schemaAt tree.nodes root = some schema) :
    tree.markRoot.read = (Branch.ofNode tree.nodes schema root).read := by
  have marked : tree.markRoot = tree.mark root := by simp [markRoot, isRoot]
  have sameRoot : (tree.mark root).root = some root := isRoot
  have sameSchema : schemaAt (tree.mark root).nodes root = some schema := by
    rw [schemaAt_mark]
    exact found
  rw [marked, read_eq_read_ofNode sameRoot sameSchema]
  apply Branch.read_ofNode_congr
  intro other _
  rw [contentAt_mark]

end Tree

end ProcessImage.Wire
