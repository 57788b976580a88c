import ProcessImage.Proofs.Wire.Edit
import ProcessImage.Proofs.Wire.Marks

/-!
# Bare trees

What a tree holds in its scalars, and under which tags, has no part in where its
nodes are, which of them are marked and which paths lead to marks.  A `bare` tree
says nothing about scalars: all of them are one truth value, and all arrays of
scalars are empty.

Bare schemas are always well tagged, and editing commutes with baring:
`Tree.exists_bare_edited`.  So what holds of the marks of all edited trees of
well-tagged schemas holds of those of the other schemas as well.
-/

namespace ProcessImage.Wire

open Arena

/-! ## Bare schemas -/

namespace Schema

mutual

/-- The schema with nothing said about scalars. -/
def bare : Schema → Schema
  | .scalar _ => .scalar (.scalar .boolean)
  | .scalarArray .. => .scalarArray (.array .boolean) none none
  | .struct id members => .struct id (bareMembers members)
  | .structArray id members name length => .structArray id (bareMembers members) name length
  | .union id members => .union id (bareMembers members)
  | .unionArray id members => .unionArray id (bareMembers members)

/-- Members with nothing said about scalars. -/
def bareMembers : List (String × Schema) → List (String × Schema)
  | [] => []
  | (name, schema) :: rest => (name, schema.bare) :: bareMembers rest

end

theorem bareMembers_eq_map (members : List (String × Schema)) :
    bareMembers members = members.map fun member => (member.1, member.2.bare) := by
  induction members with
  | nil => rfl
  | cons member rest ih => simp [bareMembers, ih]

@[simp]
theorem names_bareMembers (members : List (String × Schema)) :
    (bareMembers members).map (·.1) = members.map (·.1) := by
  simp [bareMembers_eq_map]

/-- What holds of bare schemas because of what holds of schemas, holds everywhere
in the bare schema. -/
theorem Everywhere.bare {property other : Schema → Prop}
    (carried : ∀ schema : Schema, property schema → other schema.bare) {schema : Schema}
    (each : schema.Everywhere property) : schema.bare.Everywhere other := by
  have below : ∀ members : List (String × Schema),
      (∀ member ∈ members, member.2.Everywhere property → member.2.bare.Everywhere other) →
      MembersEverywhere property members → MembersEverywhere other (bareMembers members) := by
    intro members inner holds
    rw [membersEverywhere_iff] at holds ⊢
    intro member inside
    rw [bareMembers_eq_map] at inside
    obtain ⟨source, isSource, rfl⟩ := List.mem_map.mp inside
    exact inner source isSource (holds source isSource)
  induction schema with
  | scalar tag => exact carried _ each
  | scalarArray tag name length => exact carried _ each
  | struct id members inner => exact ⟨carried _ each.1, below members inner each.2⟩
  | structArray id members name length inner =>
      exact ⟨carried _ each.1, carried _ each.2.1, below members inner each.2.2⟩
  | union id members inner => exact ⟨carried _ each.1, below members inner each.2⟩
  | unionArray id members inner =>
      exact ⟨carried _ each.1, carried _ each.2.1, below members inner each.2.2⟩

theorem everywhere_true (schema : Schema) : schema.Everywhere fun _ => True := by
  induction schema with
  | scalar tag => trivial
  | scalarArray tag name length => trivial
  | struct id members inner => exact ⟨trivial, membersEverywhere_iff.mpr inner⟩
  | structArray id members name length inner =>
      exact ⟨trivial, trivial, membersEverywhere_iff.mpr inner⟩
  | union id members inner => exact ⟨trivial, membersEverywhere_iff.mpr inner⟩
  | unionArray id members inner => exact ⟨trivial, trivial, membersEverywhere_iff.mpr inner⟩

/-- Bare schemas are well tagged, whatever tags the schema has. -/
theorem wellTagged_bare (schema : Schema) : schema.bare.WellTagged :=
  Everywhere.bare (fun schema _ => by cases schema <;> simp [Schema.bare, HasOwnTag, Tag.isScalar,
    Tag.isScalarArray, Tag.arrayElement?]) schema.everywhere_true

theorem PlainNames.bare {schema : Schema} (plain : schema.PlainNames) : schema.bare.PlainNames := by
  refine Everywhere.bare (fun schema here => ?_) plain
  cases schema with
  | struct id members =>
      intro member inside
      rw [bareMembers_eq_map] at inside
      obtain ⟨source, isSource, rfl⟩ := List.mem_map.mp inside
      exact here source isSource
  | _ => trivial

theorem DistinctNames.bare {schema : Schema} (distinct : schema.DistinctNames) :
    schema.bare.DistinctNames := by
  refine Everywhere.bare (fun schema here => ?_) distinct
  cases schema with
  | struct id members =>
      show ((bareMembers members).map (·.1)).Nodup
      rw [names_bareMembers]
      exact here
  | _ => trivial

/-- A schema is a structure exactly when the bare schema is one. -/
theorem exists_bare_eq_struct_iff {schema : Schema} :
    (∃ id members, schema.bare = .struct id members) ↔
      ∃ id members, schema = .struct id members := by
  cases schema <;> simp [Schema.bare]

end Schema

/-! ## Bare nodes -/

/-- The content with nothing said about scalars. -/
def Content.bare : Content → Content
  | .scalar _ => .scalar (.zeroOf .boolean)
  | .scalarArray _ => .scalarArray ⟨.array .boolean, []⟩
  | content => content

@[simp]
theorem Content.children_bare (content : Content) : content.bare.children = content.children := by
  cases content <;> rfl

/-- The node with nothing said about scalars. -/
def Node.bare (node : Node) : Node :=
  ⟨node.schema.bare, node.content.bare, node.changed⟩

/-- The tree with nothing said about scalars. -/
def Tree.bare (tree : Tree) : Tree :=
  ⟨tree.nodes.map Node.bare, tree.root⟩

@[simp]
theorem Tree.nodes_bare (tree : Tree) : tree.bare.nodes = tree.nodes.map Node.bare :=
  rfl

@[simp]
theorem Tree.root_bare (tree : Tree) : tree.bare.root = tree.root :=
  rfl

namespace Arena

variable (nodes : Array Node) (id : Nat)

@[simp]
theorem schemaAt_bare :
    schemaAt (nodes.map Node.bare) id = (schemaAt nodes id).map Schema.bare := by
  simp [schemaAt, Function.comp_def, Node.bare]

@[simp]
theorem contentAt_bare :
    contentAt (nodes.map Node.bare) id = (contentAt nodes id).map Content.bare := by
  simp [contentAt, Function.comp_def, Node.bare]

@[simp]
theorem childrenAt_bare : childrenAt (nodes.map Node.bare) id = childrenAt nodes id := by
  simp [childrenAt, Function.comp_def]

@[simp]
theorem below_bare : Below (nodes.map Node.bare) = Below nodes := by
  unfold Below
  simp only [childrenAt_bare]

@[simp]
theorem markedAt_bare : MarkedAt (nodes.map Node.bare) id ↔ MarkedAt nodes id := by
  unfold MarkedAt
  rw [Array.getElem?_map]
  cases nodes[id]? <;> simp [Node.bare]

end Arena

/-! ## Allocation -/

theorem allocMembers_bare {members : List (String × Schema)}
    (each : ∀ member ∈ members, ∀ nodes : Array Node,
      alloc member.2.bare (nodes.map Node.bare) =
        ((alloc member.2 nodes).1.map Node.bare, (alloc member.2 nodes).2)) (nodes : Array Node) :
    allocMembers (Schema.bareMembers members) (nodes.map Node.bare) =
      ((allocMembers members nodes).1.map Node.bare, (allocMembers members nodes).2) := by
  induction members generalizing nodes with
  | nil => rfl
  | cons member rest ih =>
      have first := each member List.mem_cons_self
      have later := ih fun member inside => each member (List.mem_cons_of_mem _ inside)
      simp [Schema.bareMembers, allocMembers, first, later]

/-- The nodes of a bare schema are the bare nodes of the schema. -/
theorem alloc_bare (schema : Schema) (nodes : Array Node) :
    alloc schema.bare (nodes.map Node.bare) =
      ((alloc schema nodes).1.map Node.bare, (alloc schema nodes).2) := by
  induction schema generalizing nodes with
  | scalar tag => simp [Schema.bare, alloc, Node.bare, Content.bare, freshDatum]
  | scalarArray tag name length =>
      simp [Schema.bare, alloc, Node.bare, Content.bare, freshItems]
  | struct id members each =>
      simp [Schema.bare, alloc, allocMembers_bare each, Node.bare, Content.bare]
  | structArray id members name length each =>
      simp [Schema.bare, alloc, Node.bare, Content.bare]
  | union id members each => simp [Schema.bare, alloc, Node.bare, Content.bare]
  | unionArray id members each => simp [Schema.bare, alloc, Node.bare, Content.bare]

theorem allocCopies_bare (schema : Schema) (count : Nat) (nodes : Array Node) :
    allocCopies schema.bare count (nodes.map Node.bare) =
      ((allocCopies schema count nodes).1.map Node.bare, (allocCopies schema count nodes).2) := by
  induction count generalizing nodes with
  | zero => rfl
  | succ count ih => simp [allocCopies, alloc_bare, ih]

namespace Tree

variable {tree after : Tree} {id : Nat}

theorem ofSchema_bare (schema : Schema) : (ofSchema schema).bare = ofSchema schema.bare := by
  have allocated := alloc_bare schema #[]
  simp only [List.map_toArray, List.map_nil] at allocated
  simp [ofSchema, bare, allocated]

/-! ## Setters -/

/-- Changing a node changes the bare node. -/
theorem map_bare_modify {change other : Node → Node}
    (commutes : ∀ node, (change node).bare = other node.bare) (nodes : Array Node) (id : Nat) :
    (nodes.modify id change).map Node.bare = (nodes.map Node.bare).modify id other := by
  apply Array.ext_getElem?
  intro place
  simp only [Array.getElem?_map, Array.getElem?_modify]
  split <;> simp [Option.map_map, Function.comp_def, commutes]

theorem store_bare (tree : Tree) (id : Nat) (content : Content) :
    (tree.store id content).bare = tree.bare.store id content.bare := by
  simp only [store, bare, Tree.mk.injEq, and_true]
  refine map_bare_modify (fun node => ?_) tree.nodes id
  rfl

theorem mark_bare (tree : Tree) (id : Nat) : (tree.mark id).bare = tree.bare.mark id := by
  simp only [mark, bare, Tree.mk.injEq, and_true]
  refine map_bare_modify (fun node => ?_) tree.nodes id
  rfl

theorem markRoot_bare (tree : Tree) : tree.markRoot.bare = tree.bare.markRoot := by
  cases isRoot : tree.root with
  | none => simp [markRoot, bare, isRoot]
  | some root =>
      have marked : tree.markRoot = tree.mark root := by simp [markRoot, isRoot]
      rw [marked, mark_bare]
      simp [markRoot, bare, isRoot]

theorem unmarkAll_bare (tree : Tree) : tree.unmarkAll.bare = tree.bare.unmarkAll := by
  simp [unmarkAll, bare, Function.comp_def, Node.bare]

/-- A scalar that was set is set to the truth value in the bare tree. -/
theorem putScalar_bare {datum : Datum} (put : tree.putScalar id datum = .ok after) :
    tree.bare.putScalar id (.zeroOf .boolean) = .ok after.bare := by
  obtain ⟨current, contentEq, _, rfl⟩ := putScalar_eq_ok_iff.mp put
  rw [store_bare]
  exact putScalar_eq_ok_iff.mpr
    ⟨.zeroOf .boolean, by simp [bare, contentEq, Content.bare], rfl, rfl⟩

/-- An array of scalars that was set is emptied in the bare tree. -/
theorem putScalarArray_bare {items : DatumArray} (put : tree.putScalarArray id items = .ok after) :
    tree.bare.putScalarArray id ⟨.array .boolean, []⟩ = .ok after.bare := by
  obtain ⟨name, length, found, _, rfl⟩ := putScalarArray_eq_ok_iff.mp put
  rw [store_bare]
  exact putScalarArray_eq_ok_iff.mpr
    ⟨none, none, by simp [bare, found, Schema.bare], by simp, rfl⟩

theorem resize_bare {length : Nat} {ids : List Nat}
    (resized : tree.resize id length = .ok (after, ids)) :
    tree.bare.resize id length = .ok (after.bare, ids) := by
  obtain ⟨current, structId, members, name, fixed, contentEq, found, same, rfl⟩ :=
    resize_eq_ok_iff.mp resized
  have copies := allocCopies_bare (.struct structId members)
    (length - (current.take length).length) tree.nodes
  rw [Schema.bare] at copies
  refine resize_eq_ok_iff.mpr ⟨current, structId, Schema.bareMembers members, name, fixed,
    by simp [bare, contentEq, Content.bare], by simp [bare, found, Schema.bare], ?_, ?_⟩
  · rw [bare, copies, same]
  · rw [store_bare]
    simp only [bare, copies, Content.bare]

theorem findIdx?_bareMembers (members : List (String × Schema)) (name : String) :
    (Schema.bareMembers members).findIdx? (·.1 == name) = members.findIdx? (·.1 == name) := by
  simp [Schema.bareMembers_eq_map, Function.comp_def]

theorem lookup_bareMembers (members : List (String × Schema)) (name : String) :
    (Schema.bareMembers members).lookup name = (members.lookup name).map Schema.bare := by
  induction members with
  | nil => rfl
  | cons member rest ih =>
      rcases member with ⟨first, schema⟩
      simp only [Schema.bareMembers, List.lookup_cons, ih]
      split <;> rfl

theorem select_bare {name : String} {child : Nat}
    (selected : tree.select id name = .ok (after, child)) :
    tree.bare.select id name = .ok (after.bare, child) := by
  obtain ⟨unionId, members, position, schema, found, place, inner, rfl, rfl⟩ :=
    select_eq_ok_iff.mp selected
  have allocated := alloc_bare schema tree.nodes
  refine select_eq_ok_iff.mpr ⟨unionId, Schema.bareMembers members, position, schema.bare,
    by simp [bare, found, Schema.bare], by rw [findIdx?_bareMembers, place],
    by rw [lookup_bareMembers, inner]; rfl, ?_, ?_⟩
  · rw [bare, allocated]
  · rw [store_bare]
    simp only [bare, allocated, Content.bare]

/-! ## Edits -/

/-- What made one tree of another can be done to the bare trees by edits. -/
def Mirrored (tree after : Tree) : Prop :=
  ∃ edits : List Edit, after.bare = tree.bare.edited edits

namespace Mirrored

theorem refl (tree : Tree) : tree.Mirrored tree :=
  ⟨[], rfl⟩

theorem trans {tree middle after : Tree} (first : tree.Mirrored middle)
    (later : middle.Mirrored after) : tree.Mirrored after := by
  obtain ⟨edits, middleEq⟩ := first
  obtain ⟨others, afterEq⟩ := later
  refine ⟨edits ++ others, ?_⟩
  rw [afterEq, middleEq]
  exact List.foldl_append.symm

/-- One edit of the bare tree is enough. -/
theorem of_edit {tree after : Tree} (edit : Edit) (applied : edit.apply tree.bare = after.bare) :
    tree.Mirrored after :=
  ⟨[edit], applied.symm⟩

theorem settle {tree : Tree} {attempt : Except Fault Tree}
    (succeeded : ∀ after, attempt = .ok after → tree.Mirrored after) :
    tree.Mirrored (tree.settle attempt).1 := by
  cases attempt with
  | ok after => exact succeeded after rfl
  | error fault => exact refl tree

end Mirrored

theorem mirrored_putScalar {datum : Datum} (put : tree.putScalar id datum = .ok after) :
    tree.Mirrored after :=
  .of_edit (.putScalar id (.zeroOf .boolean)) (by simp [Edit.apply, putScalar_bare put])

theorem mirrored_putScalarArray {items : DatumArray}
    (put : tree.putScalarArray id items = .ok after) : tree.Mirrored after := by
  have empty : DatumArray.ofItems (.array .boolean) [] = .ok ⟨.array .boolean, []⟩ := rfl
  exact .of_edit (.putScalarArray id (.array .boolean) [])
    (by simp [Edit.apply, empty, putScalarArray_bare put])

theorem mirrored_resize {length : Nat} {ids : List Nat}
    (resized : tree.resize id length = .ok (after, ids)) : tree.Mirrored after :=
  .of_edit (.resize id length) (by simp [Edit.apply, resize_bare resized])

theorem mirrored_select {name : String} {child : Nat}
    (selected : tree.select id name = .ok (after, child)) : tree.Mirrored after :=
  .of_edit (.select id name) (by simp [Edit.apply, select_bare selected])

theorem mirrored_assignScalar {tag : Tag} {datum : Scalar}
    (assigned : tree.assignScalar id tag datum = .ok after) : tree.Mirrored after := by
  unfold assignScalar at assigned
  split at assigned
  · exact mirrored_putScalar assigned
  · cases assigned

theorem mirrored_assignScalars {tag : Tag} {array : Value} {element : DataType}
    {elements : List Value}
    (assigned : tree.assignScalars id tag array element elements = .ok after) :
    tree.Mirrored after := by
  obtain ⟨items, _, put⟩ := Outcome.bind_eq_ok_iff.mp assigned
  exact mirrored_putScalarArray put

theorem mirrored_assignElements {values : List Value}
    (each : ∀ value ∈ values, ∀ (tree : Tree) (id : Nat), tree.Mirrored (tree.assign id value).1)
    (tree : Tree) (ids : List Nat) : tree.Mirrored (tree.assignElements ids values).1 := by
  induction values generalizing tree ids with
  | nil => cases ids <;> exact .refl _
  | cons value rest ih =>
      cases ids with
      | nil => exact .refl _
      | cons top others =>
          have first := each value List.mem_cons_self tree top
          unfold assignElements
          rcases written : assign tree top value with ⟨next, _ | _⟩
          · rw [written] at first
            exact first
          · rw [written] at first
            exact first.trans
              (ih (fun value inside => each value (List.mem_cons_of_mem _ inside)) next others)

/-- Writing a value below a node, completely or in part, is mirrored. -/
theorem mirrored_assign (tree : Tree) (id : Nat) (value : Value) :
    tree.Mirrored (tree.assign id value).1 := by
  induction value generalizing tree id with
  | empty =>
      unfold assign
      split <;> exact .refl _
  | scalar datum =>
      unfold assign
      split
      · exact .refl _
      · exact .settle fun _ assigned => mirrored_assignScalar assigned
      · exact .refl _
  | struct name fields each =>
      unfold assign
      split
      · exact .refl _
      · dsimp only
        split
        · rw [assignFields_eq_assignElements]
          refine mirrored_assignElements (fun value inside => ?_) tree _
          obtain ⟨field, isField, rfl⟩ := List.mem_map.mp inside
          exact fun tree id => each field isField tree id
        · exact .refl _
      · exact .refl _
  | array name element length elements each =>
      unfold assign
      split
      · exact .refl _
      · exact .settle fun _ assigned => mirrored_assignScalars assigned
      · split
        · rename_i resized children fitted
          exact (mirrored_resize (resize_of_fitLength fitted)).trans
            (mirrored_assignElements (fun value inside tree id => each value inside tree id) _ _)
        · exact .refl _
      · exact .refl _

/-- An edit is mirrored, accepted or refused. -/
theorem mirrored_apply (tree : Tree) (edit : Edit) : tree.Mirrored (edit.apply tree) := by
  unfold Edit.apply
  split
  · split
    · exact mirrored_putScalar ‹_›
    · exact .refl tree
  · split
    · rename_i put
      obtain ⟨items, _, put⟩ := Outcome.bind_eq_ok_iff.mp put
      exact mirrored_putScalarArray put
    · exact .refl tree
  · split
    · exact mirrored_resize ‹_›
    · exact .refl tree
  · split
    · exact mirrored_select ‹_›
    · exact .refl tree
  · exact .of_edit (.mark _) (mark_bare tree _).symm
  · exact .of_edit .markRoot (markRoot_bare tree).symm
  · exact .of_edit .unmarkAll (unmarkAll_bare tree).symm
  · unfold write
    split
    · exact mirrored_assign tree _ _
    · exact .refl tree

/-- Edits are mirrored, one after the other. -/
theorem mirrored_edited (tree : Tree) (edits : List Edit) : tree.Mirrored (tree.edited edits) := by
  induction edits generalizing tree with
  | nil => exact .refl tree
  | cons edit rest ih => exact (mirrored_apply tree edit).trans (ih (edit.apply tree))

/-! ## Paths -/

@[simp]
theorem members_bare (tree : Tree) (id : Nat) : tree.bare.members id = tree.members id := by
  unfold members node? bare
  rw [Array.getElem?_map]
  cases tree.nodes[id]? with
  | none => rfl
  | some node =>
      rcases node with ⟨schema, content, changed⟩
      cases schema <;> cases content <;> simp [Node.bare, Schema.bare, Content.bare]

@[simp]
theorem find?_bare (tree : Tree) (place : Path) : tree.bare.find? place = tree.find? place := by
  have same : tree.bare.member? = tree.member? := by
    funext id name
    simp [member?]
  rw [find?, find?, same]
  rfl

end Tree

/-! ## Marks -/

namespace Branch

theorem membersHaveMark_ofMembers_bare {nodes : Array Node} {members : List (String × Schema)}
    (each : ∀ member ∈ members, ∀ id,
      (ofNode (nodes.map Node.bare) member.2.bare id).hasMark = (ofNode nodes member.2 id).hasMark)
    (children : List Nat) :
    membersHaveMark (ofMembers (nodes.map Node.bare) (Schema.bareMembers members) children) =
      membersHaveMark (ofMembers nodes members children) := by
  induction members generalizing children with
  | nil => rfl
  | cons member rest ih =>
      cases children with
      | nil => rfl
      | cons child others =>
          have first := each member List.mem_cons_self child
          have later := ih (fun member inside => each member (List.mem_cons_of_mem _ inside)) others
          simp [Schema.bareMembers, ofMembers, membersHaveMark, first, later]

theorem elementsHaveMark_ofMemberAt_bare {nodes : Array Node} {members : List (String × Schema)}
    (each : ∀ member ∈ members, ∀ id,
      (ofNode (nodes.map Node.bare) member.2.bare id).hasMark = (ofNode nodes member.2 id).hasMark)
    (position child : Nat) :
    elementsHaveMark
        (ofMemberAt (nodes.map Node.bare) (Schema.bareMembers members) position child) =
      elementsHaveMark (ofMemberAt nodes members position child) := by
  induction members generalizing position with
  | nil => rfl
  | cons member rest ih =>
      cases position with
      | zero =>
          have first := each member List.mem_cons_self child
          simp [Schema.bareMembers, ofMemberAt, elementsHaveMark, first]
      | succ position =>
          exact ih (fun member inside => each member (List.mem_cons_of_mem _ inside)) position

theorem elementsHaveMark_map_congr {branch other : Nat → Branch}
    (same : ∀ id, (branch id).hasMark = (other id).hasMark) (ids : List Nat) :
    elementsHaveMark (ids.map branch) = elementsHaveMark (ids.map other) := by
  induction ids with
  | nil => rfl
  | cons id rest ih => simp [elementsHaveMark, same id, ih]

theorem hasMark_struct_bare {nodes : Array Node} {members : List (String × Schema)}
    (each : ∀ member ∈ members, ∀ id,
      (ofNode (nodes.map Node.bare) member.2.bare id).hasMark = (ofNode nodes member.2 id).hasMark)
    (structId : Option String) (id : Nat) :
    (ofNode (nodes.map Node.bare) (Schema.struct structId members).bare id).hasMark =
      (ofNode nodes (.struct structId members) id).hasMark := by
  simp only [Schema.bare, ofNode, Array.getElem?_map]
  rcases nodes[id]? with _ | ⟨schema, content, changed⟩
  · rfl
  · cases content with
    | struct children =>
        simp [Node.bare, Content.bare, hasMark, membersHaveMark_ofMembers_bare each]
    | _ => rfl

/-- A bare branch shows the same marks. -/
theorem hasMark_ofNode_bare (nodes : Array Node) (schema : Schema) (id : Nat) :
    (ofNode (nodes.map Node.bare) schema.bare id).hasMark = (ofNode nodes schema id).hasMark := by
  induction schema generalizing id with
  | struct structId members each => exact hasMark_struct_bare each structId id
  | structArray structId members name length each =>
      simp only [Schema.bare, ofNode, Array.getElem?_map]
      rcases nodes[id]? with _ | ⟨schema, content, changed⟩
      · rfl
      · cases content with
        | structArray elements =>
            refine congrArg (changed || ·) (elementsHaveMark_map_congr (fun element => ?_) elements)
            have same := hasMark_struct_bare each structId element
            simpa only [Schema.bare, ofNode, Array.getElem?_map] using same
        | _ => rfl
  | union structId members each =>
      simp only [Schema.bare, ofNode, Array.getElem?_map]
      rcases nodes[id]? with _ | ⟨schema, content, changed⟩
      · rfl
      · cases content with
        | union selected =>
            rcases selected with _ | ⟨position, child⟩
            · rfl
            · simp [Node.bare, Content.bare, hasMark, elementsHaveMark_ofMemberAt_bare each]
        | _ => rfl
  | _ =>
      simp only [Schema.bare, ofNode, Array.getElem?_map]
      rcases nodes[id]? with _ | ⟨schema, content, changed⟩
      · rfl
      · cases content <;> rfl

/-- Only structures lead paths to their members. -/
theorem changedPaths_ofNode {nodes : Array Node} {schema : Schema}
    (other : ∀ id members, schema ≠ .struct id members) (id : Nat) (path : String) :
    (ofNode nodes schema id).changedPaths path =
      if (ofNode nodes schema id).hasMark then [path] else [] := by
  cases schema with
  | struct structId members => exact absurd rfl (other structId members)
  | _ =>
      unfold ofNode
      split <;> rfl

theorem memberChangedPaths_ofMembers_bare {nodes : Array Node} {members : List (String × Schema)}
    (each : ∀ member ∈ members, ∀ id path,
      (ofNode (nodes.map Node.bare) member.2.bare id).changedPaths path =
        (ofNode nodes member.2 id).changedPaths path) (children : List Nat) (path : String) :
    memberChangedPaths path
        (ofMembers (nodes.map Node.bare) (Schema.bareMembers members) children) =
      memberChangedPaths path (ofMembers nodes members children) := by
  induction members generalizing children with
  | nil => rfl
  | cons member rest ih =>
      cases children with
      | nil => rfl
      | cons child others =>
          have first := each member List.mem_cons_self child (memberPath path member.1)
          have later := ih (fun member inside => each member (List.mem_cons_of_mem _ inside)) others
          simp [Schema.bareMembers, ofMembers, memberChangedPaths, first, later]

/-- A bare branch lists the same paths. -/
theorem changedPaths_ofNode_bare (nodes : Array Node) (schema : Schema) (id : Nat) (path : String) :
    (ofNode (nodes.map Node.bare) schema.bare id).changedPaths path =
      (ofNode nodes schema id).changedPaths path := by
  induction schema generalizing id path with
  | struct structId members each =>
      simp only [Schema.bare, ofNode, Array.getElem?_map]
      rcases nodes[id]? with _ | ⟨schema, content, changed⟩
      · rfl
      · cases content with
        | struct children =>
            cases changed with
            | true => rfl
            | false => exact memberChangedPaths_ofMembers_bare each children path
        | _ => rfl
  | _ =>
      rw [changedPaths_ofNode (by simp [Schema.bare]), changedPaths_ofNode (by simp),
        hasMark_ofNode_bare]

end Branch

/-- A bare tree lists the same paths. -/
@[simp]
theorem Tree.changedPaths_bare (tree : Tree) : tree.bare.changedPaths = tree.changedPaths := by
  unfold changedPaths branch? schema? node? bare
  cases tree.root with
  | none => rfl
  | some root =>
      simp only [Option.bind_some, Array.getElem?_map]
      cases tree.nodes[root]? with
      | none => rfl
      | some node => exact Branch.changedPaths_ofNode_bare tree.nodes node.schema root ""

end ProcessImage.Wire
