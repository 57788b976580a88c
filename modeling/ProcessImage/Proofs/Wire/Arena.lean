import Mathlib.Logic.Relation
import ProcessImage.Proofs.Wire.Schema
import ProcessImage.Wire.Tree

/-!
# Sound node arrays

Of a node only its schema and its content count here, not its mark.  An array of
nodes is `Sound` when the content of every node fits its schema, down to the
schemas of the nodes that it refers to, and when no node is referred to twice.
As the schema of a child is a part of the schema of its parent, a sound array
cannot contain a cycle.

The views of an array by schema, by content and by children are all that the
other modules use of it.
-/

namespace ProcessImage.Wire

/-- The nodes that a content refers to. -/
def Content.children : Content → List Nat
  | .scalar _ | .scalarArray _ => []
  | .struct members => members
  | .structArray elements => elements
  | .union selected => (selected.map (·.2)).toList
  | .unionArray elements => elements

/-- Whether a schema admits a content, when the schemas of nodes are known. -/
def Schema.Admits (schemas : Nat → Option Schema) : Schema → Content → Prop
  | .scalar tag, .scalar datum => datum.tag = tag
  | .scalarArray tag _ length, .scalarArray items =>
      items.tag = tag ∧ (∀ item ∈ items.items, tag.arrayElement? = some item.element) ∧
        ∀ count ∈ length, items.items.length = count
  | .struct _ members, .struct children =>
      children.map schemas = members.map fun member => some member.2
  | .structArray id members _ _, .structArray elements =>
      ∀ element ∈ elements, schemas element = some (.struct id members)
  | .union _ members, .union selected =>
      ∀ choice ∈ selected, ∃ member ∈ members[choice.1]?, schemas choice.2 = some member.2
  | .unionArray .., .unionArray elements => elements = []
  | _, _ => False

namespace Schema

theorem sizeOf_member_lt {members : List (String × Schema)} {member : String × Schema}
    (inside : member ∈ members) (id : Option String) :
    sizeOf member.2 < sizeOf (struct id members) ∧ sizeOf member.2 < sizeOf (union id members) := by
  have smaller := List.sizeOf_lt_of_mem inside
  rcases member with ⟨name, schema⟩
  simp only [Prod.mk.sizeOf_spec, struct.sizeOf_spec, union.sizeOf_spec] at smaller ⊢
  omega

theorem sizeOf_element_lt (id : Option String) (members : List (String × Schema))
    (name : Option String) (length : Option Nat) :
    sizeOf (struct id members) < sizeOf (structArray id members name length) := by
  cases name <;> simp <;> omega

/-- Whatever an admitted content refers to has a part of the schema. -/
theorem Admits.child {schemas : Nat → Option Schema} {schema : Schema} {content : Content}
    (admitted : schema.Admits schemas content) {child : Nat} (inside : child ∈ content.children) :
    ∃ inner, schemas child = some inner ∧ sizeOf inner < sizeOf schema := by
  unfold Admits at admitted
  split at admitted
  · cases inside
  · cases inside
  · rename_i id members children
    have found : schemas child ∈ children.map schemas := List.mem_map_of_mem inside
    rw [admitted] at found
    obtain ⟨member, isMember, same⟩ := List.mem_map.mp found
    exact ⟨member.2, same.symm, (sizeOf_member_lt isMember id).1⟩
  · rename_i id members name length elements
    exact ⟨_, admitted child inside, sizeOf_element_lt id members name length⟩
  · rename_i id members selected
    cases selected with
    | none => cases inside
    | some choice =>
        obtain ⟨member, found, same⟩ := admitted choice rfl
        have isChild : child = choice.2 := by simpa [Content.children] using inside
        have isMember : member ∈ members := List.mem_of_getElem? found
        exact ⟨member.2, isChild ▸ same, (sizeOf_member_lt isMember id).2⟩
  · subst admitted
    cases inside
  · cases admitted

/-- Admission looks at the schemas of children only. -/
theorem Admits.mono {schemas others : Nat → Option Schema} {schema : Schema} {content : Content}
    (admitted : schema.Admits schemas content)
    (kept : ∀ id inner, schemas id = some inner → others id = some inner) :
    schema.Admits others content := by
  unfold Admits at admitted ⊢
  split at admitted
  · exact admitted
  · exact admitted
  · rename_i id members children
    rw [← admitted]
    apply List.map_congr_left
    intro child inside
    have whole : (Schema.struct id members).Admits schemas (.struct children) := admitted
    obtain ⟨inner, found, _⟩ := whole.child inside
    rw [found, kept child inner found]
  · exact fun element inside => kept element _ (admitted element inside)
  · intro choice chosen
    obtain ⟨member, found, same⟩ := admitted choice chosen
    exact ⟨member, found, kept _ _ same⟩
  · exact admitted
  · exact admitted.elim

end Schema

namespace Arena

/-! ## Views of an array of nodes -/

/-- The schema of the node of a number. -/
def schemaAt (nodes : Array Node) (id : Nat) : Option Schema :=
  nodes[id]?.map (·.schema)

/-- The content of the node of a number. -/
def contentAt (nodes : Array Node) (id : Nat) : Option Content :=
  nodes[id]?.map (·.content)

/-- The nodes that the node of a number refers to. -/
def childrenAt (nodes : Array Node) (id : Nat) : List Nat :=
  ((contentAt nodes id).map Content.children).getD []

/-- A node that no node refers to. -/
def Orphan (nodes : Array Node) (id : Nat) : Prop :=
  ∀ parent, id ∉ childrenAt nodes parent

/-- One node is below another, or is that node. -/
def Below (nodes : Array Node) : Nat → Nat → Prop :=
  Relation.ReflTransGen fun parent child => child ∈ childrenAt nodes parent

theorem schemaAt_eq_none_iff {nodes : Array Node} {id : Nat} :
    schemaAt nodes id = none ↔ nodes.size ≤ id := by
  simp [schemaAt]

theorem lt_size_of_schemaAt {nodes : Array Node} {id : Nat} {schema : Schema}
    (found : schemaAt nodes id = some schema) : id < nodes.size := by
  rcases Nat.lt_or_ge id nodes.size with inside | outside
  · exact inside
  · rw [schemaAt_eq_none_iff.mpr outside] at found
    cases found

theorem schemaAt_of_node {nodes : Array Node} {id : Nat} {node : Node}
    (nodeEq : nodes[id]? = some node) : schemaAt nodes id = some node.schema := by
  simp [schemaAt, nodeEq]

theorem contentAt_of_node {nodes : Array Node} {id : Nat} {node : Node}
    (nodeEq : nodes[id]? = some node) : contentAt nodes id = some node.content := by
  simp [contentAt, nodeEq]

theorem exists_content {nodes : Array Node} {id : Nat} {schema : Schema}
    (found : schemaAt nodes id = some schema) : ∃ content, contentAt nodes id = some content := by
  obtain ⟨node, nodeEq, _⟩ := Option.map_eq_some_iff.mp found
  exact ⟨node.content, contentAt_of_node nodeEq⟩

theorem exists_schema {nodes : Array Node} {id : Nat} {content : Content}
    (found : contentAt nodes id = some content) : ∃ schema, schemaAt nodes id = some schema := by
  obtain ⟨node, nodeEq, _⟩ := Option.map_eq_some_iff.mp found
  exact ⟨node.schema, schemaAt_of_node nodeEq⟩

theorem childrenAt_of_contentAt {nodes : Array Node} {id : Nat} {content : Content}
    (found : contentAt nodes id = some content) : childrenAt nodes id = content.children := by
  simp [childrenAt, found]

theorem childrenAt_of_node {nodes : Array Node} {id : Nat} {node : Node}
    (nodeEq : nodes[id]? = some node) : childrenAt nodes id = node.content.children :=
  childrenAt_of_contentAt (contentAt_of_node nodeEq)

theorem childrenAt_congr {nodes others : Array Node} {id : Nat}
    (same : contentAt others id = contentAt nodes id) :
    childrenAt others id = childrenAt nodes id := by
  unfold childrenAt
  rw [same]

theorem lt_size_of_mem_childrenAt {nodes : Array Node} {parent child : Nat}
    (inside : child ∈ childrenAt nodes parent) : parent < nodes.size := by
  rcases Nat.lt_or_ge parent nodes.size with bounded | outside
  · exact bounded
  · simp [childrenAt, contentAt, outside] at inside

/-! ## One more node -/

theorem schemaAt_push (nodes : Array Node) (node : Node) (id : Nat) :
    schemaAt (nodes.push node) id =
      if id = nodes.size then some node.schema else schemaAt nodes id := by
  unfold schemaAt
  rw [Array.getElem?_push]
  split <;> rfl

theorem schemaAt_push_of_old {nodes : Array Node} (node : Node) {id : Nat} {schema : Schema}
    (found : schemaAt nodes id = some schema) : schemaAt (nodes.push node) id = some schema := by
  have old := lt_size_of_schemaAt found
  rw [schemaAt_push, if_neg (by omega)]
  exact found

theorem contentAt_push (nodes : Array Node) (node : Node) (id : Nat) :
    contentAt (nodes.push node) id =
      if id = nodes.size then some node.content else contentAt nodes id := by
  unfold contentAt
  rw [Array.getElem?_push]
  split <;> rfl

theorem childrenAt_push (nodes : Array Node) (node : Node) (id : Nat) :
    childrenAt (nodes.push node) id =
      if id = nodes.size then node.content.children else childrenAt nodes id := by
  unfold childrenAt
  rw [contentAt_push]
  split <;> rfl

/-! ## Other content in a node -/

@[simp]
theorem schemaAt_store (tree : Tree) (target : Nat) (content : Content) (id : Nat) :
    schemaAt (tree.store target content).nodes id = schemaAt tree.nodes id := by
  unfold schemaAt Tree.store
  rw [Array.getElem?_modify]
  split <;> simp [Option.map_map, Function.comp_def]

theorem contentAt_store (tree : Tree) (target : Nat) (content : Content) (id : Nat) :
    contentAt (tree.store target content).nodes id =
      if target = id then (contentAt tree.nodes id).map fun _ => content
      else contentAt tree.nodes id := by
  unfold contentAt Tree.store
  rw [Array.getElem?_modify]
  split <;> simp [Option.map_map, Function.comp_def]

/-- The children of a node that is there are those of its new content. -/
theorem childrenAt_store {tree : Tree} {target : Nat} {schema : Schema}
    (found : schemaAt tree.nodes target = some schema) (content : Content) (id : Nat) :
    childrenAt (tree.store target content).nodes id =
      if target = id then content.children else childrenAt tree.nodes id := by
  unfold childrenAt
  rw [contentAt_store]
  split
  · rename_i same
    obtain ⟨old, oldEq⟩ := exists_content (same ▸ found)
    simp [oldEq]
  · rfl

/-! ## Sound arrays -/

/-- All contents fit their schemas, and no node is referred to twice. -/
structure Sound (nodes : Array Node) : Prop where
  tagged : ∀ {id schema}, schemaAt nodes id = some schema → schema.WellTagged
  admits : ∀ {id schema content}, schemaAt nodes id = some schema →
    contentAt nodes id = some content → schema.Admits (schemaAt nodes) content
  nodup : ∀ id, (childrenAt nodes id).Nodup
  unique : ∀ {parent other child}, child ∈ childrenAt nodes parent →
    child ∈ childrenAt nodes other → parent = other

theorem sound_empty : Sound #[] where
  tagged found := by simp [schemaAt] at found
  admits found := by simp [schemaAt] at found
  nodup _ := by simp [childrenAt, contentAt]
  unique inside := by simp [childrenAt, contentAt] at inside

/-- Arrays with the same schemas and contents are sound together. -/
theorem Sound.congr {nodes others : Array Node} (sound : Sound nodes)
    (schemas : schemaAt others = schemaAt nodes) (contents : contentAt others = contentAt nodes) :
    Sound others := by
  have children : ∀ id, childrenAt others id = childrenAt nodes id := fun id =>
    childrenAt_congr (congrFun contents id)
  constructor
  case tagged =>
    intro id schema found
    rw [schemas] at found
    exact sound.tagged found
  case admits =>
    intro id schema content found foundContent
    rw [schemas] at found ⊢
    rw [contents] at foundContent
    exact sound.admits found foundContent
  case nodup =>
    intro id
    rw [children]
    exact sound.nodup id
  case unique =>
    intro parent other child inParent inOther
    rw [children] at inParent inOther
    exact sound.unique inParent inOther

/-- What is referred to is there, and its schema is smaller than that of its
parent. -/
theorem Sound.child {nodes : Array Node} (sound : Sound nodes) {parent child : Nat}
    (inside : child ∈ childrenAt nodes parent) :
    ∃ schema inner, schemaAt nodes parent = some schema ∧ schemaAt nodes child = some inner ∧
      sizeOf inner < sizeOf schema := by
  cases found : schemaAt nodes parent with
  | none =>
      have outside := schemaAt_eq_none_iff.mp found
      simp [childrenAt, contentAt, outside] at inside
  | some schema =>
      obtain ⟨content, contentEq⟩ := exists_content found
      have admitted := sound.admits found contentEq
      rw [childrenAt_of_contentAt contentEq] at inside
      obtain ⟨inner, innerEq, smaller⟩ := admitted.child inside
      exact ⟨schema, inner, rfl, innerEq, smaller⟩

/-- References lead to nodes that are there. -/
theorem Sound.child_lt_size {nodes : Array Node} (sound : Sound nodes) {parent child : Nat}
    (inside : child ∈ childrenAt nodes parent) : child < nodes.size := by
  obtain ⟨_, _, _, found, _⟩ := sound.child inside
  exact lt_size_of_schemaAt found

/-- What is below a node that is there is there. -/
theorem Sound.lt_size_of_below {nodes : Array Node} (sound : Sound nodes) {top id : Nat}
    (below : Below nodes top id) (inside : top < nodes.size) : id < nodes.size := by
  induction below with
  | refl => exact inside
  | tail _ step _ => exact sound.child_lt_size step

/-- A node that holds a datum has the schema of that datum. -/
theorem Sound.schemaAt_of_scalar {nodes : Array Node} (sound : Sound nodes) {id : Nat}
    {datum : Datum} (contentEq : contentAt nodes id = some (.scalar datum)) :
    schemaAt nodes id = some (.scalar datum.tag) := by
  obtain ⟨schema, found⟩ := exists_schema contentEq
  have admitted := sound.admits found contentEq
  cases schema with
  | scalar tag =>
      rw [found, show datum.tag = tag from admitted]
  | _ => exact admitted.elim

end Arena

end ProcessImage.Wire
