import ProcessImage.Proofs.Value.Adoption
import ProcessImage.Proofs.Wire.Reading

/-!
# Marks and the paths to them

The marks that a branch shows are those of the nodes below its own.  The places
of the marks are paths through structures, and the texts that a tree lists are
the texts of these paths, as long as the names in structures are plain.
-/

namespace ProcessImage.Wire

open Arena

/-! ## Marked nodes -/

namespace Arena

/-- Whether the node of a number is marked. -/
def MarkedAt (nodes : Array Node) (id : Nat) : Prop :=
  ∃ node, nodes[id]? = some node ∧ node.changed = true

/-- Whether a node or any node below it is marked. -/
def MarkedBelow (nodes : Array Node) (id : Nat) : Prop :=
  ∃ other, Below nodes id other ∧ MarkedAt nodes other

variable {nodes : Array Node} {id : Nat}

/-- A mark below a node is its own or one below a child. -/
theorem markedBelow_iff {schema : Schema} {content : Content} {changed : Bool}
    (nodeEq : nodes[id]? = some ⟨schema, content, changed⟩) :
    MarkedBelow nodes id ↔
      changed = true ∨ ∃ child ∈ content.children, MarkedBelow nodes child := by
  have childrenEq : childrenAt nodes id = content.children := childrenAt_of_node nodeEq
  constructor
  · rintro ⟨other, below, marked⟩
    rcases Relation.ReflTransGen.cases_head below with rfl | ⟨child, isChild, later⟩
    · rcases marked with ⟨node, same, isMarked⟩
      rw [nodeEq] at same
      cases same
      exact Or.inl isMarked
    · exact Or.inr ⟨child, childrenEq ▸ isChild, other, later, marked⟩
  · rintro (isMarked | ⟨child, isChild, other, below, marked⟩)
    · exact ⟨id, .refl, _, nodeEq, isMarked⟩
    · exact ⟨other, below.head (childrenEq ▸ isChild), marked⟩

end Arena

namespace Branch

variable {nodes : Array Node} {id : Nat}

theorem elementsHaveMark_map_iff {elements : List Nat} {branch : Nat → Branch} :
    elementsHaveMark (elements.map branch) = true ↔
      ∃ element ∈ elements, (branch element).hasMark = true := by
  induction elements with
  | nil => simp [elementsHaveMark]
  | cons element rest ih => simp [elementsHaveMark, ih]

theorem membersHaveMark_ofMembers_iff {members : List (String × Schema)}
    (each : ∀ member ∈ members, ∀ id, schemaAt nodes id = some member.2 →
      ((ofNode nodes member.2 id).hasMark = true ↔ MarkedBelow nodes id))
    {children : List Nat}
    (schemas : children.map (schemaAt nodes) = members.map fun member => some member.2) :
    membersHaveMark (ofMembers nodes members children) = true ↔
      ∃ child ∈ children, MarkedBelow nodes child := by
  induction members generalizing children with
  | nil =>
      cases children with
      | nil => simp [ofMembers, membersHaveMark]
      | cons child rest => cases schemas
  | cons member rest ih =>
      cases children with
      | nil => cases schemas
      | cons child others =>
          simp only [List.map_cons, List.cons.injEq] at schemas
          have first := each member List.mem_cons_self child schemas.1
          have later := ih (fun member inside => each member (List.mem_cons_of_mem _ inside))
            schemas.2
          simp [ofMembers, membersHaveMark, first, later]

theorem hasMark_struct_iff (sound : Sound nodes) {structId : Option String}
    {members : List (String × Schema)}
    (each : ∀ member ∈ members, ∀ id, schemaAt nodes id = some member.2 →
      ((ofNode nodes member.2 id).hasMark = true ↔ MarkedBelow nodes id))
    (found : schemaAt nodes id = some (.struct structId members)) :
    (ofNode nodes (.struct structId members) id).hasMark = true ↔ MarkedBelow nodes id := by
  obtain ⟨children, changed, nodeEq, schemas⟩ := sound.node_struct found
  rw [ofNode_struct nodeEq, markedBelow_iff nodeEq, hasMark, Bool.or_eq_true,
    membersHaveMark_ofMembers_iff each schemas]
  rfl

theorem ofMemberAt_eq {members : List (String × Schema)} {position : Nat}
    {member : String × Schema} (isMember : members[position]? = some member) (child : Nat) :
    ofMemberAt nodes members position child = [ofNode nodes member.2 child] := by
  induction members generalizing position with
  | nil => simp at isMember
  | cons first rest ih =>
      cases position with
      | zero =>
          obtain rfl : first = member := by simpa using isMember
          rfl
      | succ position => exact ih (by simpa using isMember)

/-- The branch at a sound node shows a mark exactly when a node is marked there
or below. -/
theorem hasMark_ofNode_iff (sound : Sound nodes) {schema : Schema}
    (found : schemaAt nodes id = some schema) :
    (ofNode nodes schema id).hasMark = true ↔ MarkedBelow nodes id := by
  induction schema generalizing id with
  | scalar tag =>
      obtain ⟨datum, changed, nodeEq, _⟩ := sound.node_scalar found
      simp [ofNode, nodeEq, hasMark, markedBelow_iff nodeEq, Content.children]
  | scalarArray tag name length =>
      obtain ⟨items, changed, nodeEq, _⟩ := sound.node_scalarArray found
      simp [ofNode, nodeEq, hasMark, markedBelow_iff nodeEq, Content.children]
  | struct structId members each =>
      exact hasMark_struct_iff sound (fun member inside id => each member inside) found
  | structArray structId members name length each =>
      obtain ⟨elements, changed, nodeEq, schemas⟩ := sound.node_structArray found
      have marks : (∃ element ∈ elements,
          (ofNode nodes (.struct structId members) element).hasMark = true) ↔
          ∃ child ∈ elements, MarkedBelow nodes child :=
        exists_congr fun element => and_congr_right fun isElement =>
          hasMark_struct_iff sound (fun member inside id => each member inside)
            (schemas element isElement)
      rw [ofNode_structArray nodeEq, markedBelow_iff nodeEq, hasMark, Bool.or_eq_true,
        elementsHaveMark_map_iff, marks]
      rfl
  | union structId members each =>
      obtain ⟨selected, changed, nodeEq⟩ := sound.node_union found
      cases selected with
      | none =>
          simp [ofNode, nodeEq, hasMark, elementsHaveMark, markedBelow_iff nodeEq, Content.children]
      | some choice =>
          obtain ⟨member, isMember, childSchema⟩ := sound.admits_node nodeEq choice rfl
          have inner := each member (List.mem_of_getElem? isMember) childSchema
          simp [ofNode, nodeEq, hasMark, ofMemberAt_eq isMember, elementsHaveMark, inner,
            markedBelow_iff nodeEq, Content.children]
  | unionArray structId members each =>
      obtain ⟨elements, changed, nodeEq⟩ := sound.node_unionArray found
      have empty : elements = [] := sound.admits_node nodeEq
      simp [ofNode, nodeEq, hasMark, elementsHaveMark, markedBelow_iff nodeEq, Content.children,
        empty]

/-- The branch at a sound node is marked exactly when the node is. -/
theorem isMarked_ofNode_iff (sound : Sound nodes) {schema : Schema}
    (found : schemaAt nodes id = some schema) :
    (ofNode nodes schema id).isMarked = true ↔ MarkedAt nodes id := by
  cases schema with
  | scalar tag =>
      obtain ⟨datum, changed, nodeEq, _⟩ := sound.node_scalar found
      simp [ofNode, nodeEq, isMarked, MarkedAt]
  | scalarArray tag name length =>
      obtain ⟨items, changed, nodeEq, _⟩ := sound.node_scalarArray found
      simp [ofNode, nodeEq, isMarked, MarkedAt]
  | struct structId members =>
      obtain ⟨children, changed, nodeEq, _⟩ := sound.node_struct found
      simp [ofNode, nodeEq, isMarked, MarkedAt]
  | structArray structId members name length =>
      obtain ⟨elements, changed, nodeEq, _⟩ := sound.node_structArray found
      simp [ofNode, nodeEq, isMarked, MarkedAt]
  | union structId members =>
      obtain ⟨selected, changed, nodeEq⟩ := sound.node_union found
      cases selected <;> simp [ofNode, nodeEq, isMarked, MarkedAt]
  | unionArray structId members =>
      obtain ⟨elements, changed, nodeEq⟩ := sound.node_unionArray found
      simp [ofNode, nodeEq, isMarked, MarkedAt]

/-- A branch that is marked itself is listed by its own path alone. -/
theorem changedPaths_of_isMarked {branch : Branch} (marked : branch.isMarked = true)
    (text : String) : branch.changedPaths text = [text] := by
  cases branch with
  | struct changed id members =>
      obtain rfl : changed = true := marked
      rfl
  | broken fault => cases marked
  | _ =>
      simp only [isMarked] at marked
      simp [changedPaths, hasMark, marked]

/-! ## Places of marks -/

/-- A property of all branches follows from the six shapes, where structures may
rely on the property for their members. -/
@[elab_as_elim, induction_eliminator]
theorem induction {motive : Branch → Prop}
    (scalar : ∀ changed datum, motive (.scalar changed datum))
    (scalarArray : ∀ changed name length items, motive (.scalarArray changed name length items))
    (struct : ∀ changed id members, (∀ member ∈ members, motive member.2) →
      motive (.struct changed id members))
    (structArray : ∀ changed id members name length elements,
      motive (.structArray changed id members name length elements))
    (union : ∀ changed tag node below, motive (.union changed tag node below))
    (broken : ∀ fault, motive (.broken fault)) (branch : Branch) : motive branch :=
  Branch.rec (motive_1 := motive) (motive_2 := fun members => ∀ member ∈ members, motive member.2)
    (motive_3 := fun _ => True) (motive_4 := fun member => motive member.2) scalar scalarArray
    (fun changed id members each => struct changed id members each)
    (fun changed id members name length elements _ =>
      structArray changed id members name length elements)
    (fun changed tag node below _ => union changed tag node below) broken (by simp)
    (fun _ _ first others => by
      simpa using ⟨first, fun name branch member => others (name, branch) member⟩)
    trivial (fun _ _ _ _ => trivial) (fun _ _ inner => inner) branch

mutual

/-- The places of what is marked, each as a path through structures. -/
def changedPlaces : Branch → List Path
  | .struct true _ _ => [[]]
  | .struct false _ members => memberChangedPlaces members
  | branch => if branch.hasMark then [[]] else []

/-- The places of what is marked below members. -/
def memberChangedPlaces : List (String × Branch) → List Path
  | [] => []
  | (name, member) :: rest => (changedPlaces member).map (name :: ·) ++ memberChangedPlaces rest

end

mutual

/-- Whether the names are plain and different in all structures that paths lead
through. -/
def WellNamed : Branch → Prop
  | .struct _ _ members =>
      (members.map (·.1)).Nodup ∧ (∀ member ∈ members, Path.IsPlain member.1) ∧
        MembersWellNamed members
  | _ => True

/-- Whether names are plain and different below members. -/
def MembersWellNamed : List (String × Branch) → Prop
  | [] => True
  | (_, member) :: rest => member.WellNamed ∧ MembersWellNamed rest

end

theorem membersWellNamed_iff {members : List (String × Branch)} :
    MembersWellNamed members ↔ ∀ member ∈ members, member.2.WellNamed := by
  induction members with
  | nil => simp [MembersWellNamed]
  | cons member rest ih => simp [MembersWellNamed, ih]

variable {changed : Bool} {id : Option String} {members : List (String × Branch)}

theorem WellNamed.nodup (named : (Branch.struct changed id members).WellNamed) :
    (members.map (·.1)).Nodup :=
  named.1

theorem WellNamed.plain (named : (Branch.struct changed id members).WellNamed) :
    ∀ member ∈ members, Path.IsPlain member.1 :=
  named.2.1

theorem WellNamed.member (named : (Branch.struct changed id members).WellNamed)
    {member : String × Branch} (inside : member ∈ members) : member.2.WellNamed :=
  membersWellNamed_iff.mp named.2.2 member inside

/-- The text for a member is a path with one more name. -/
theorem ofText_memberPath {name : String} (plain : Path.IsPlain name) (text : String) :
    Path.ofText (memberPath text name) = Path.ofText text ++ [name] := by
  unfold memberPath
  by_cases top : text = ""
  · rw [if_pos top, Path.ofText_of_isPlain plain]
    simp [top, Path.ofText]
  · rw [if_neg top, Path.ofText_append_point top plain]

theorem map_ofText_memberChangedPaths {members : List (String × Branch)}
    (plain : ∀ member ∈ members, Path.IsPlain member.1)
    (each : ∀ member ∈ members, ∀ text, (member.2.changedPaths text).map Path.ofText =
      member.2.changedPlaces.map (Path.ofText text ++ ·)) (text : String) :
    (memberChangedPaths text members).map Path.ofText =
      (memberChangedPlaces members).map (Path.ofText text ++ ·) := by
  induction members with
  | nil => rfl
  | cons member rest ih =>
      rcases member with ⟨name, branch⟩
      have first := each (name, branch) List.mem_cons_self (memberPath text name)
      have later := ih (fun member inside => plain member (List.mem_cons_of_mem _ inside))
        fun member inside => each member (List.mem_cons_of_mem _ inside)
      rw [ofText_memberPath (plain (name, branch) List.mem_cons_self)] at first
      simp [memberChangedPaths, memberChangedPlaces, first, later, Function.comp_def]

/-- The listed texts write the places of what is marked. -/
theorem map_ofText_changedPaths {branch : Branch} (named : branch.WellNamed) (text : String) :
    (branch.changedPaths text).map Path.ofText =
      branch.changedPlaces.map (Path.ofText text ++ ·) := by
  induction branch generalizing text with
  | struct changed id members each =>
      cases changed with
      | true => simp [changedPaths, changedPlaces]
      | false =>
          exact map_ofText_memberChangedPaths named.plain
            (fun member inside => each member inside (named.member inside)) text
  | _ =>
      simp only [changedPaths, changedPlaces]
      split <;> simp

end Branch

/-! ## Names in schemas -/

namespace Schema

/-- The members of a structure have plain names. -/
def HasPlainMembers : Schema → Prop
  | .struct _ members => ∀ member ∈ members, Path.IsPlain member.1
  | _ => True

/-- In every structure the members have plain names. -/
def PlainNames : Schema → Prop :=
  Everywhere HasPlainMembers

end Schema

namespace Branch

variable {nodes : Array Node}

theorem exists_of_mem_ofMembers {members : List (String × Schema)} {children : List Nat}
    (schemas : children.map (schemaAt nodes) = members.map fun member => some member.2)
    {branch : String × Branch} (inside : branch ∈ ofMembers nodes members children) :
    ∃ member ∈ members, ∃ child, schemaAt nodes child = some member.2 ∧
      branch = (member.1, ofNode nodes member.2 child) := by
  induction members generalizing children with
  | nil => simp [ofMembers] at inside
  | cons member rest ih =>
      cases children with
      | nil => cases schemas
      | cons child others =>
          simp only [List.map_cons, List.cons.injEq] at schemas
          rcases List.mem_cons.mp inside with rfl | later
          · exact ⟨member, List.mem_cons_self, child, schemas.1, rfl⟩
          · obtain ⟨other, isOther, known⟩ := ih schemas.2 later
            exact ⟨other, List.mem_cons_of_mem _ isOther, known⟩

/-- Where a schema has plain and different names, its branches are well named. -/
theorem wellNamed_ofNode (sound : Sound nodes) {schema : Schema} (plain : schema.PlainNames)
    (distinct : schema.DistinctNames) {id : Nat} (found : schemaAt nodes id = some schema) :
    (ofNode nodes schema id).WellNamed := by
  induction schema generalizing id with
  | struct structId members each =>
      obtain ⟨children, changed, nodeEq, schemas⟩ := sound.node_struct found
      have innerPlain := Schema.Everywhere.members_of_struct plain
      have innerDistinct := Schema.Everywhere.members_of_struct distinct
      rw [ofNode_struct nodeEq]
      have complete := length_of_schemas schemas
      refine ⟨names_ofMembers complete ▸ distinct.names, ?_, membersWellNamed_iff.mpr ?_⟩
      · intro branch inside
        obtain ⟨member, isMember, child, _, rfl⟩ := exists_of_mem_ofMembers schemas inside
        exact plain.1 member isMember
      · intro branch inside
        obtain ⟨member, isMember, child, childSchema, rfl⟩ :=
          exists_of_mem_ofMembers schemas inside
        exact each member isMember (innerPlain member isMember) (innerDistinct member isMember)
          childSchema
  | scalar tag =>
      obtain ⟨datum, changed, nodeEq, _⟩ := sound.node_scalar found
      simp [ofNode, nodeEq, WellNamed]
  | scalarArray tag name length =>
      obtain ⟨items, changed, nodeEq, _⟩ := sound.node_scalarArray found
      simp [ofNode, nodeEq, WellNamed]
  | structArray structId members name length each =>
      obtain ⟨elements, changed, nodeEq, _⟩ := sound.node_structArray found
      simp [ofNode, nodeEq, WellNamed]
  | union structId members each =>
      obtain ⟨selected, changed, nodeEq⟩ := sound.node_union found
      cases selected <;> simp [ofNode, nodeEq, WellNamed]
  | unionArray structId members each =>
      obtain ⟨elements, changed, nodeEq⟩ := sound.node_unionArray found
      simp [ofNode, nodeEq, WellNamed]

end Branch

end ProcessImage.Wire
