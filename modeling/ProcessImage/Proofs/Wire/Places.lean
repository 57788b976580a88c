import Mathlib.Data.Option.Basic
import ProcessImage.Proofs.Wire.Edit
import ProcessImage.Proofs.Wire.Merge
import ProcessImage.Proofs.Wire.Separation

/-!
# Nodes and values at places

A node `Holds` the value that is read below it.  Where a node holds a value, the
path to a node below it is the path to the value that this node holds, and where
there is no node there is no value either.

A change below the node at a place changes the value at that place and nothing
else: the other members on the way hold what they held, as nothing is below two of
them.
-/

namespace ProcessImage.Wire

open Arena Branch

/-- A value is what is read below a node whose structures have members of
different names. -/
def Arena.Holds (nodes : Array Node) (id : Nat) (value : Value) : Prop :=
  ∃ schema, schemaAt nodes id = some schema ∧ schema.DistinctNames ∧
    (ofNode nodes schema id).read = .ok value

namespace Arena

variable {nodes : Array Node} {id : Nat} {value : Value}

/-- A node that holds a value and has members is a structure, and so is its value. -/
theorem Holds.exists_struct (sound : Sound nodes) (holds : Holds nodes id value)
    {structId : Option String} {members : List (String × Schema)}
    (found : schemaAt nodes id = some (.struct structId members)) :
    ∃ children changed fields,
      nodes[id]? = some ⟨.struct structId members, .struct children, changed⟩ ∧
      children.map (schemaAt nodes) = members.map (fun member => some member.2) ∧
      value = .struct structId fields ∧
      readFields (ofMembers nodes members children) = .ok fields := by
  obtain ⟨children, changed, nodeEq, schemas⟩ := sound.node_struct found
  obtain ⟨schema, found', distinct, read⟩ := holds
  rw [found] at found'
  cases found'
  rw [ofNode_struct nodeEq, read_struct (length_of_schemas schemas) distinct.names] at read
  obtain ⟨fields, fieldsEq, same⟩ := Outcome.bind_eq_ok_iff.mp read
  cases same
  exact ⟨children, changed, fields, nodeEq, schemas, rfl, fieldsEq⟩

/-- A node holds a structure when its members hold the fields. -/
theorem holds_struct {structId : Option String} {members : List (String × Schema)}
    {children : List Nat} {changed : Bool} {fields : List (String × Value)}
    (nodeEq : nodes[id]? = some ⟨.struct structId members, .struct children, changed⟩)
    (complete : children.length = members.length)
    (distinct : (Schema.struct structId members).DistinctNames)
    (read : readFields (ofMembers nodes members children) = .ok fields) :
    Holds nodes id (.struct structId fields) := by
  refine ⟨_, schemaAt_of_node nodeEq, distinct, ?_⟩
  rw [ofNode_struct nodeEq, read_struct complete distinct.names, read]
  rfl

/-- Only a structure that a node holds has fields. -/
theorem Holds.field?_eq_none (sound : Sound nodes) (holds : Holds nodes id value)
    (other : ∀ structId members, schemaAt nodes id ≠ some (.struct structId members))
    (name : String) : value.field? name = none := by
  obtain ⟨schema, found, _, read⟩ := holds
  cases schema with
  | scalar tag =>
      obtain ⟨datum, changed, nodeEq, _⟩ := sound.node_scalar found
      simp only [ofNode, nodeEq, Branch.read] at read
      cases read
      rfl
  | scalarArray tag arrayName length =>
      obtain ⟨items, changed, nodeEq, _⟩ := sound.node_scalarArray found
      simp only [ofNode, nodeEq, Branch.read] at read
      obtain ⟨kind, _, same⟩ := Outcome.bind_eq_ok_iff.mp read
      cases same
      rfl
  | struct structId members => exact absurd found (other structId members)
  | structArray structId members arrayName length =>
      obtain ⟨elements, changed, nodeEq, _⟩ := sound.node_structArray found
      rw [ofNode_structArray nodeEq] at read
      obtain ⟨types, _, later⟩ := Outcome.bind_eq_ok_iff.mp read
      obtain ⟨values, _, same⟩ := Outcome.bind_eq_ok_iff.mp later
      cases same
      rfl
  | union structId members =>
      obtain ⟨selected, changed, nodeEq⟩ := sound.node_union found
      cases selected <;> simp [ofNode, nodeEq, Branch.read] at read
  | unionArray structId members =>
      obtain ⟨elements, changed, nodeEq⟩ := sound.node_unionArray found
      simp [ofNode, nodeEq, Branch.read] at read

end Arena

/-! ## Members and fields -/

variable {tree : Tree}

/-- The first member of a name holds the first field of that name. -/
theorem rel_lookup {nodes : Array Node} {members : List (String × Schema)}
    (distinct : ∀ member ∈ members, member.2.DistinctNames) {children : List Nat}
    (schemas : children.map (schemaAt nodes) = members.map fun member => some member.2)
    {fields : List (String × Value)}
    (read : readFields (ofMembers nodes members children) = .ok fields) (name : String) :
    Option.Rel (Holds nodes) (((members.map (·.1)).zip children).lookup name)
      (fields.lookup name) := by
  induction members generalizing children fields with
  | nil =>
      simp only [ofMembers] at read
      cases read
      simp
  | cons member rest ih =>
      rcases member with ⟨first, schema⟩
      cases children with
      | nil => cases schemas
      | cons child others =>
          simp only [List.map_cons, List.cons.injEq] at schemas
          obtain ⟨value, more, firstRead, later, rfl⟩ := readFields_cons_eq_ok_iff.mp read
          simp only [List.map_cons, List.zip_cons_cons, List.lookup_cons]
          by_cases same : name = first
          · subst same
            simp only [beq_self_eq_true]
            exact .some ⟨schema, schemas.1, distinct _ List.mem_cons_self, firstRead⟩
          · simp only [beq_eq_false_iff_ne.mpr same]
            exact ih (fun member inside => distinct member (List.mem_cons_of_mem _ inside))
              schemas.2 later

theorem Tree.member?_of_node {id : Nat} {structId : Option String}
    {members : List (String × Schema)} {children : List Nat} {changed : Bool}
    (nodeEq : tree.nodes[id]? = some ⟨.struct structId members, .struct children, changed⟩)
    (name : String) :
    tree.member? id name = ((members.map (·.1)).zip children).lookup name := by
  rw [Tree.member?, Tree.members_of_node nodeEq]

/-- Only structures have members. -/
theorem Tree.exists_struct_of_member? {id child : Nat} {name : String}
    (found : tree.member? id name = some child) :
    ∃ structId members, schemaAt tree.nodes id = some (.struct structId members) := by
  unfold Tree.member? Tree.members at found
  split at found
  · rename_i structId members children changed nodeEq
    exact ⟨structId, members, schemaAt_of_node nodeEq⟩
  · cases found

/-- Where a node holds a value, its members hold the fields of that value. -/
theorem rel_member? (sound : Sound tree.nodes) {id : Nat} {value : Value}
    (holds : Holds tree.nodes id value) (name : String) :
    Option.Rel (Holds tree.nodes) (tree.member? id name) (value.field? name) := by
  by_cases struct : ∃ structId members, schemaAt tree.nodes id = some (.struct structId members)
  · rcases struct with ⟨structId, members, found⟩
    have distinct : (Schema.struct structId members).DistinctNames := by
      rcases holds with ⟨schema, found', distinct, _⟩
      rw [found] at found'
      cases found'
      exact distinct
    obtain ⟨children, changed, fields, nodeEq, schemas, rfl, read⟩ :=
      holds.exists_struct sound found
    rw [Tree.member?_of_node nodeEq]
    exact rel_lookup (Schema.Everywhere.members_of_struct distinct) schemas read name
  · have noMember : tree.member? id name = none := by
      cases found : tree.member? id name with
      | none => rfl
      | some child => exact absurd (Tree.exists_struct_of_member? found) struct
    rw [noMember, holds.field?_eq_none sound fun structId members found =>
      struct ⟨structId, members, found⟩]
    exact .none

/-- Where a node holds a value, a path leads to a node below it exactly when it
leads to a part of the value, and that node holds that part. -/
theorem rel_foldlM_member? (sound : Sound tree.nodes) {id : Nat} {value : Value}
    (holds : Holds tree.nodes id value) (place : Path) :
    Option.Rel (Holds tree.nodes) (place.foldlM tree.member? id) (value.get? place) := by
  induction place generalizing id value with
  | nil => exact .some holds
  | cons name rest ih =>
      have first := rel_member? sound holds name
      simp only [List.foldlM_cons, Value.get?]
      revert first
      cases tree.member? id name <;> cases value.field? name <;> rintro ⟨⟩
      · exact .none
      · exact ih ‹_›

/-! ## Changes at places -/

/-- When one member comes to hold another value, so does the field of its name. -/
theorem exists_changeField? {before after : Array Node} {members : List (String × Schema)}
    {children : List Nat}
    (schemas : children.map (schemaAt before) = members.map fun member => some member.2)
    (nodup : children.Nodup) {fields : List (String × Value)}
    (read : readFields (ofMembers before members children) = .ok fields) {name : String}
    {child : Nat} (found : ((members.map (·.1)).zip children).lookup name = some child)
    (others : ∀ other ∈ children, other ≠ child → ∀ schema,
      (ofNode after schema other).read = (ofNode before schema other).read)
    {change : Value → Option Value}
    (changed : ∀ member ∈ members, ∀ part, schemaAt before child = some member.2 →
      (ofNode before member.2 child).read = .ok part →
        ∃ updated, change part = some updated ∧ (ofNode after member.2 child).read = .ok updated) :
    ∃ updated, Value.changeField? name change fields = some updated ∧
      readFields (ofMembers after members children) = .ok updated := by
  induction members generalizing children fields with
  | nil => simp at found
  | cons member rest ih =>
      rcases member with ⟨first, schema⟩
      cases children with
      | nil => cases schemas
      | cons top more =>
          simp only [List.map_cons, List.cons.injEq] at schemas
          rw [List.nodup_cons] at nodup
          obtain ⟨value, otherFields, firstRead, later, rfl⟩ := readFields_cons_eq_ok_iff.mp read
          simp only [List.map_cons, List.zip_cons_cons, List.lookup_cons] at found
          by_cases same : name = first
          · subst same
            simp only [beq_self_eq_true, Option.some.injEq] at found
            subst found
            obtain ⟨updated, isUpdated, readUpdated⟩ :=
              changed _ List.mem_cons_self value schemas.1 firstRead
            have sameRest : readFields (ofMembers after rest more) = .ok otherFields := by
              rw [← later]
              exact readFields_congr (map_read_ofMembers_congr fun member _ other isOther =>
                others other (List.mem_cons_of_mem _ isOther)
                  (fun same => nodup.1 (same ▸ isOther)) member.2)
            refine ⟨(name, updated) :: otherFields, ?_, ?_⟩
            · simp [Value.changeField?, isUpdated]
            · exact readFields_cons_eq_ok_iff.mpr ⟨_, _, readUpdated, sameRest, rfl⟩
          · simp only [beq_eq_false_iff_ne.mpr same] at found
            have inRest : child ∈ more := by
              rcases List.lookup_eq_some_iff.mp found with ⟨before, after, split, _⟩
              have inside : (name, child) ∈ (rest.map (·.1)).zip more := by simp [split]
              exact (List.of_mem_zip inside).2
            have apart : top ≠ child := fun equal => nodup.1 (equal ▸ inRest)
            obtain ⟨updated, isUpdated, readUpdated⟩ := ih schemas.2 nodup.2 later found
              (fun other isOther => others other (List.mem_cons_of_mem _ isOther))
              fun member inside => changed member (List.mem_cons_of_mem _ inside)
            refine ⟨(first, value) :: updated, ?_, ?_⟩
            · simp [Value.changeField?, Ne.symm same, isUpdated]
            · have sameFirst := others top List.mem_cons_self apart schema
              exact readFields_cons_eq_ok_iff.mpr
                ⟨_, _, sameFirst.trans firstRead, readUpdated, rfl⟩

namespace Tree

theorem mem_childrenAt_of_member? {id child : Nat} {name : String}
    (found : tree.member? id name = some child) : child ∈ childrenAt tree.nodes id := by
  apply mem_childrenAt_of_mem_members
  rcases List.lookup_eq_some_iff.mp found with ⟨before, after, split, _⟩
  simp [split]

/-- A path leads downwards. -/
theorem below_of_foldlM_member? {place : Path} {id target : Nat}
    (found : place.foldlM tree.member? id = some target) : Below tree.nodes id target := by
  induction place generalizing id with
  | nil =>
      cases found
      exact .refl
  | cons name rest ih =>
      obtain ⟨child, isChild, later⟩ := Option.bind_eq_some_iff.mp found
      exact (ih later).head (mem_childrenAt_of_member? isChild)

end Tree

/-- When only what is below the node at a place changes, the value at that place
is replaced by what the node holds then. -/
theorem exists_set? {before after : Tree} {target : Nat} (sound : Sound before.nodes)
    (evolution : Evolution (Below before.nodes target) before after) {new : Value}
    (renewed : Holds after.nodes target new) {id : Nat} {value : Value}
    (holds : Holds before.nodes id value) {place : Path}
    (found : place.foldlM before.member? id = some target) :
    ∃ updated, value.set? new place = some updated ∧ Holds after.nodes id updated := by
  induction place generalizing id value with
  | nil =>
      cases found
      exact ⟨new, rfl, renewed⟩
  | cons name rest ih =>
      obtain ⟨child, isChild, later⟩ := Option.bind_eq_some_iff.mp found
      have belowChild := Tree.below_of_foldlM_member? later
      have inside := Tree.mem_childrenAt_of_member? isChild
      obtain ⟨structId, members, foundStruct⟩ := Tree.exists_struct_of_member? isChild
      obtain ⟨children, changed, fields, nodeEq, schemas, rfl, read⟩ :=
        holds.exists_struct sound foundStruct
      have childrenEq : childrenAt before.nodes id = children := childrenAt_of_node nodeEq
      have distinct : (Schema.struct structId members).DistinctNames := by
        rcases holds with ⟨schema, found', distinct, _⟩
        rw [foundStruct] at found'
        cases found'
        exact distinct
      -- The structure itself is above the place, and its other members are beside it.
      have sameContent : contentAt after.nodes id = contentAt before.nodes id := by
        apply evolution.frame id (lt_size_of_schemaAt foundStruct)
        intro above
        exact sound.not_below_child inside (belowChild.trans above)
      have others : ∀ other ∈ children, other ≠ child → ∀ schema,
          (ofNode after.nodes schema other).read = (ofNode before.nodes schema other).read := by
        intro other isOther different schema
        have isOther' : other ∈ childrenAt before.nodes id := childrenEq ▸ isOther
        apply read_ofNode_congr
        intro node below
        apply evolution.frame node (sound.lt_size_of_below below (sound.child_lt_size isOther'))
        intro belowTarget
        exact sound.not_below_both isOther' inside different below (belowChild.trans belowTarget)
      have here : ∀ member ∈ members, ∀ part, schemaAt before.nodes child = some member.2 →
          (ofNode before.nodes member.2 child).read = .ok part →
            ∃ updated, part.set? new rest = some updated ∧
              (ofNode after.nodes member.2 child).read = .ok updated := by
        intro member isMember part childSchema childRead
        have distinctChild := Schema.Everywhere.members_of_struct distinct member isMember
        obtain ⟨updated, isUpdated, schema, schemaEq, _, readUpdated⟩ :=
          ih ⟨member.2, childSchema, distinctChild, childRead⟩ later
        rw [evolution.growth.schema childSchema] at schemaEq
        cases schemaEq
        exact ⟨updated, isUpdated, readUpdated⟩
      rw [Tree.member?_of_node nodeEq] at isChild
      obtain ⟨updated, isUpdated, readUpdated⟩ := exists_changeField? schemas
        (childrenEq ▸ sound.nodup id) read isChild others here
      obtain ⟨schema, changed', nodeAfter⟩ := exists_node_of_contentAt
        (sameContent.trans (contentAt_of_node nodeEq))
      obtain rfl : schema = .struct structId members := by
        have kept := evolution.growth.schema foundStruct
        rw [schemaAt_of_node nodeAfter] at kept
        exact Option.some.inj kept
      refine ⟨.struct structId updated, ?_, ?_⟩
      · simp [Value.set?, isUpdated]
      · exact holds_struct nodeAfter (length_of_schemas schemas) distinct readUpdated

end ProcessImage.Wire
