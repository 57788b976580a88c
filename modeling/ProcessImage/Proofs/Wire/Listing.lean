import Mathlib.Data.List.Nodup
import ProcessImage.Proofs.Wire.Intact
import ProcessImage.Proofs.Wire.Places
import ProcessImage.Proofs.Wire.Survey

/-!
# Nodes that are listed

A `Listing` follows one path from a node to the end of the path, through structures
that are not marked, as far as a node that is listed itself.  Every mark is below the
end of one listing.

The nodes that a tree lists, with the names on the way to each, are its
`Tree.reports`.  They are the listings from its root, and the texts that the tree
lists are those of their paths.
-/

namespace ProcessImage.Wire

open Arena

/-! ## Nodes that are listed -/

namespace Arena

variable (nodes : Array Node)

/-- Whether a node is a structure. -/
def IsStruct (id : Nat) : Prop :=
  ∃ structId members, schemaAt nodes id = some (.struct structId members)

/-- One node is strictly below another. -/
def Under : Nat → Nat → Prop :=
  Relation.TransGen fun parent child => child ∈ childrenAt nodes parent

/-- A node that is listed itself: it is marked, or it is no structure and a node
strictly below it is marked. -/
def Speaks (id : Nat) : Prop :=
  MarkedAt nodes id ∨ ¬ IsStruct nodes id ∧ ∃ other, Under nodes id other ∧ MarkedAt nodes other

@[simp]
theorem isStruct_bare (id : Nat) : IsStruct (nodes.map Node.bare) id ↔ IsStruct nodes id := by
  unfold IsStruct
  rw [schemaAt_bare]
  cases schemaAt nodes id with
  | none => simp
  | some schema => simpa using schema.exists_bare_eq_struct_iff

@[simp]
theorem under_bare : Under (nodes.map Node.bare) = Under nodes := by
  unfold Under
  simp only [childrenAt_bare]

variable {nodes} {id : Nat}

theorem below_of_under {top : Nat} (under : Under nodes top id) : Below nodes top id :=
  under.to_reflTransGen

theorem markedBelow_iff_under :
    MarkedBelow nodes id ↔
      MarkedAt nodes id ∨ ∃ other, Under nodes id other ∧ MarkedAt nodes other := by
  constructor
  · rintro ⟨other, below, marked⟩
    rcases Relation.reflTransGen_iff_eq_or_transGen.mp below with rfl | under
    · exact Or.inl marked
    · exact Or.inr ⟨other, under, marked⟩
  · rintro (marked | ⟨other, under, marked⟩)
    · exact ⟨id, .refl, marked⟩
    · exact ⟨other, below_of_under under, marked⟩

/-- What is above a node that is below an orphan is itself below that orphan. -/
theorem Sound.below_of_under_of_orphan (sound : Sound nodes) {top above : Nat}
    (orphan : Orphan nodes top) (inside : Below nodes top id) (under : Under nodes above id) :
    Below nodes top above := by
  rcases sound.below_or_below inside (below_of_under under) with below | upper
  · exact below
  · rcases Relation.ReflTransGen.cases_tail upper with rfl | ⟨parent, _, isChild⟩
    · exact .refl
    · exact absurd isChild (orphan parent)

/-- Anything but a structure is listed itself when there is a mark in it. -/
theorem speaks_iff_of_not_isStruct (other : ¬ IsStruct nodes id) :
    Speaks nodes id ↔ MarkedBelow nodes id := by
  simp [Speaks, other, markedBelow_iff_under]

theorem Speaks.markedBelow (speaks : Speaks nodes id) : MarkedBelow nodes id :=
  markedBelow_iff_under.mpr (speaks.imp_right And.right)

end Arena

/-- A path from a node to one that is listed itself, by members of structures that
are not marked. -/
inductive Listing (tree : Tree) : Nat → Path → Nat → Prop
  | here {id : Nat} (speaks : Speaks tree.nodes id) : Listing tree id [] id
  | member {id child target : Nat} {name : String} {rest : Path}
      (unmarked : ¬ MarkedAt tree.nodes id) (found : tree.member? id name = some child)
      (later : Listing tree child rest target) : Listing tree id (name :: rest) target

namespace Listing

variable {tree : Tree} {id target : Nat} {place : Path}

/-- The path of a listing leads to its end. -/
theorem leads (listing : Listing tree id place target) :
    place.foldlM tree.member? id = some target := by
  induction listing with
  | here speaks => rfl
  | member _ found _ ih => simp [found, ih]

theorem speaks (listing : Listing tree id place target) : Speaks tree.nodes target := by
  induction listing with
  | here speaks => exact speaks
  | member _ _ _ ih => exact ih

theorem below_target (listing : Listing tree id place target) : Below tree.nodes id target :=
  Tree.below_of_foldlM_member? listing.leads

/-- Nothing on the way to the end of a listing is marked. -/
theorem not_markedAt_of_under (sound : Sound tree.nodes) (listing : Listing tree id place target)
    {above : Nat} (inside : Below tree.nodes id above) (under : Under tree.nodes above target) :
    ¬ MarkedAt tree.nodes above := by
  induction listing with
  | here speaks => exact absurd (under.trans_left inside) (sound.acyclic above)
  | @member id child target name rest unmarked found later ih =>
      rcases Relation.ReflTransGen.cases_head inside with rfl | ⟨other, isOther, inOther⟩
      · exact unmarked
      · by_cases same : other = child
        · exact ih (same ▸ inOther) under
        · exact absurd later.below_target (sound.not_below_both isOther
            (Tree.mem_childrenAt_of_member? found) same (inOther.trans (below_of_under under)))

end Listing

/-! ## Members by name -/

section Members

variable {tree : Tree} {id child : Nat} {structId : Option String}
  {members : List (String × Schema)} {children : List Nat} {changed : Bool}

theorem schemaAt_of_mem_zip {nodes : Array Node}
    (schemas : children.map (schemaAt nodes) = members.map fun member => some member.2)
    {member : String × Schema} (inside : (member, child) ∈ members.zip children) :
    schemaAt nodes child = some member.2 := by
  induction members generalizing children with
  | nil => cases inside
  | cons first rest ih =>
      cases children with
      | nil => cases inside
      | cons top others =>
          simp only [List.map_cons, List.cons.injEq] at schemas
          rcases List.mem_cons.mp inside with same | later
          · cases same
            exact schemas.1
          · exact ih schemas.2 later

/-- A member that is found by name is one of the members, with its node. -/
theorem Tree.mem_zip_of_member?
    (nodeEq : tree.nodes[id]? = some ⟨.struct structId members, .struct children, changed⟩)
    {name : String} (found : tree.member? id name = some child) :
    ∃ schema, ((name, schema), child) ∈ members.zip children := by
  rw [member?_of_node nodeEq] at found
  obtain ⟨before, after, split, _⟩ := List.lookup_eq_some_iff.mp found
  have inside : (name, child) ∈ (members.map (·.1)).zip children := by simp [split]
  rw [List.zip_map_left] at inside
  obtain ⟨⟨⟨_, schema⟩, _⟩, pair, same⟩ := List.mem_map.mp inside
  cases same
  exact ⟨schema, pair⟩

theorem lookup_zip_of_mem (distinct : (members.map (·.1)).Nodup) {member : String × Schema}
    (inside : (member, child) ∈ members.zip children) :
    ((members.map (·.1)).zip children).lookup member.1 = some child := by
  induction members generalizing children with
  | nil => cases inside
  | cons first rest ih =>
      cases children with
      | nil => cases inside
      | cons top others =>
          obtain ⟨new, distinctRest⟩ := List.nodup_cons.mp distinct
          rcases List.mem_cons.mp inside with same | later
          · cases same
            simp
          · have different : member.1 ≠ first.1 := fun same =>
              new (List.mem_map.mpr ⟨member, (List.of_mem_zip later).1, same⟩)
            simp [List.lookup_cons, beq_eq_false_iff_ne.mpr different, ih distinctRest later]

/-- Where the names of members are different, each member is found by its name. -/
theorem Tree.member?_of_mem_zip
    (nodeEq : tree.nodes[id]? = some ⟨.struct structId members, .struct children, changed⟩)
    (distinct : (members.map (·.1)).Nodup) {member : String × Schema}
    (inside : (member, child) ∈ members.zip children) :
    tree.member? id member.1 = some child := by
  rw [member?_of_node nodeEq]
  exact lookup_zip_of_mem distinct inside

/-- A member has one name only. -/
theorem Tree.eq_of_member?_eq (sound : Sound tree.nodes) {first second : String}
    (isFirst : tree.member? id first = some child)
    (isSecond : tree.member? id second = some child) : first = second := by
  obtain ⟨structId, members, found⟩ := exists_struct_of_member? isFirst
  obtain ⟨children, changed, nodeEq, schemas⟩ := sound.node_struct found
  obtain ⟨_, inFirst⟩ := mem_zip_of_member? nodeEq isFirst
  obtain ⟨_, inSecond⟩ := mem_zip_of_member? nodeEq isSecond
  have nodup : ((members.zip children).map Prod.snd).Nodup := by
    rw [List.map_snd_zip (Nat.le_of_eq (length_of_schemas schemas))]
    have different := sound.nodup id
    rwa [childrenAt_of_node nodeEq] at different
  cases List.inj_on_of_nodup_map nodup inFirst inSecond rfl
  rfl

end Members

namespace Listing

variable {tree : Tree} {id target : Nat} {place : Path}

/-- Every mark is below the end of a listing. -/
theorem exists_of_markedAt (sound : Sound tree.nodes) {schema : Schema}
    (found : schemaAt tree.nodes id = some schema) (distinct : schema.DistinctNames) {other : Nat}
    (inside : Below tree.nodes id other) (marked : MarkedAt tree.nodes other) :
    ∃ place target, Listing tree id place target ∧ Below tree.nodes target other := by
  induction inside using Relation.ReflTransGen.head_induction_on generalizing schema with
  | refl => exact ⟨[], other, .here (Or.inl marked), .refl⟩
  | @head id child step later ih =>
      by_cases here : MarkedAt tree.nodes id
      · exact ⟨[], id, .here (Or.inl here), later.head step⟩
      by_cases isStruct : IsStruct tree.nodes id
      · obtain ⟨structId, members, isSchema⟩ := isStruct
        obtain rfl : schema = .struct structId members := Option.some.inj (found ▸ isSchema)
        obtain ⟨children, changed, nodeEq, schemas⟩ := sound.node_struct found
        rw [childrenAt_of_node nodeEq] at step
        have all : (members.zip children).map Prod.snd = children :=
          List.map_snd_zip (Nat.le_of_eq (length_of_schemas schemas))
        rw [Content.children, ← all] at step
        obtain ⟨⟨member, _⟩, pair, rfl⟩ := List.mem_map.mp step
        obtain ⟨place, target, listing, below⟩ := ih (schemaAt_of_mem_zip schemas pair)
          (distinct.members_of_struct member (List.of_mem_zip pair).1)
        exact ⟨member.1 :: place, target,
          .member here (Tree.member?_of_mem_zip nodeEq distinct.names pair) listing, below⟩
      · exact ⟨[], id, .here (Or.inr ⟨isStruct, other, .head' step later, marked⟩),
          later.head step⟩

/-- Only one listing ends above a node. -/
theorem unique (sound : Sound tree.nodes) (listing : Listing tree id place target)
    {place' : Path} {target' other : Nat} (listing' : Listing tree id place' target')
    (below : Below tree.nodes target other) (below' : Below tree.nodes target' other) :
    place = place' ∧ target = target' := by
  induction listing generalizing place' with
  | here speaks =>
      cases listing' with
      | here _ => exact ⟨rfl, rfl⟩
      | member unmarked found _ =>
          rcases speaks with marked | ⟨noStruct, _⟩
          · exact absurd marked unmarked
          · exact absurd (Tree.exists_struct_of_member? found) noStruct
  | @member id child target name rest unmarked found later ih =>
      cases listing' with
      | here speaks =>
          rcases speaks with marked | ⟨noStruct, _⟩
          · exact absurd marked unmarked
          · exact absurd (Tree.exists_struct_of_member? found) noStruct
      | @member _ child' _ name' rest' _ found' later' =>
          by_cases same : child = child'
          · subst same
            obtain rfl := Tree.eq_of_member?_eq sound found found'
            obtain ⟨rfl, rfl⟩ := ih later' below
            exact ⟨rfl, rfl⟩
          · exact absurd (later'.below_target.trans below')
              (sound.not_below_both (Tree.mem_childrenAt_of_member? found)
                (Tree.mem_childrenAt_of_member? found') same (later.below_target.trans below))

/-- A listing whose path begins another one is that other one. -/
theorem eq_of_prefix (sound : Sound tree.nodes) (listing : Listing tree id place target)
    {place' : Path} {target' : Nat} (listing' : Listing tree id place' target')
    (begins : place <+: place') : place = place' := by
  obtain ⟨rest, rfl⟩ := begins
  have leads := listing'.leads
  rw [List.foldlM_append, listing.leads] at leads
  exact (listing.unique sound listing' (Tree.below_of_foldlM_member? leads) .refl).1

end Listing

/-! ## Reports -/

namespace Arena

mutual

/-- The nodes that are listed at or below a node of a schema, with the paths from it
to each of them. -/
def reportsAt (nodes : Array Node) : Schema → Nat → List (Nat × Path)
  | .struct _ members, id =>
      match nodes[id]? with
      | some ⟨_, .struct _, true⟩ => [(id, [])]
      | some ⟨_, .struct children, false⟩ => memberReports nodes members children
      | _ => []
  | schema, id => if (Branch.ofNode nodes schema id).hasMark then [(id, [])] else []

/-- The nodes that are listed at or below members, with the paths to each of them. -/
def memberReports (nodes : Array Node) :
    List (String × Schema) → List Nat → List (Nat × Path)
  | (name, schema) :: rest, child :: children =>
      (reportsAt nodes schema child).map (fun report => (report.1, name :: report.2)) ++
        memberReports nodes rest children
  | _, _ => []

end

/-- Anything but a structure is listed as a whole. -/
theorem reportsAt_of_not_struct {nodes : Array Node} {schema : Schema}
    (other : ∀ id members, schema ≠ .struct id members) (id : Nat) :
    reportsAt nodes schema id =
      if (Branch.ofNode nodes schema id).hasMark then [(id, [])] else [] := by
  cases schema with
  | struct structId members => exact absurd rfl (other structId members)
  | _ => rfl

theorem mem_memberReports_iff {nodes : Array Node} {members : List (String × Schema)}
    {children : List Nat} {report : Nat × Path} :
    report ∈ memberReports nodes members children ↔
      ∃ pair ∈ members.zip children, ∃ inner ∈ reportsAt nodes pair.1.2 pair.2,
        report = (inner.1, pair.1.1 :: inner.2) := by
  induction members generalizing children with
  | nil => simp [memberReports]
  | cons member rest ih =>
      cases children with
      | nil => simp [memberReports]
      | cons child others => simp [memberReports, ih, eq_comm]

end Arena

/-- The nodes that a tree lists, with the paths from the root to each of them. -/
def Tree.reports (tree : Tree) : List (Nat × Path) :=
  match tree.root, tree.schema? with
  | some root, some schema => reportsAt tree.nodes schema root
  | _, _ => []

section Reports

variable {tree : Tree} {id : Nat}

/-- The reports at a node are the listings from it. -/
theorem mem_reportsAt_iff (sound : Sound tree.nodes) {schema : Schema}
    (found : schemaAt tree.nodes id = some schema) (distinct : schema.DistinctNames)
    {report : Nat × Path} :
    report ∈ reportsAt tree.nodes schema id ↔ Listing tree id report.2 report.1 := by
  induction schema generalizing id report with
  | struct structId members each =>
      obtain ⟨children, changed, nodeEq, schemas⟩ := sound.node_struct found
      have marks : MarkedAt tree.nodes id ↔ changed = true := by simp [MarkedAt, nodeEq]
      cases changed with
      | true =>
          simp only [reportsAt, nodeEq, List.mem_singleton]
          constructor
          · rintro rfl
            exact .here (Or.inl (marks.mpr rfl))
          · rcases report with ⟨target, place⟩
            rintro (_ | ⟨unmarked, _, _⟩)
            · rfl
            · exact absurd (marks.mpr rfl) unmarked
      | false =>
          have unmarked : ¬ MarkedAt tree.nodes id := by simp [marks]
          have inner := distinct.members_of_struct
          simp only [reportsAt, nodeEq, mem_memberReports_iff]
          constructor
          · rintro ⟨⟨member, child⟩, pair, later, isLater, rfl⟩
            have isMember := (List.of_mem_zip pair).1
            have listing := (each member isMember (schemaAt_of_mem_zip schemas pair)
              (inner member isMember)).mp isLater
            exact .member unmarked (Tree.member?_of_mem_zip nodeEq distinct.names pair) listing
          · rcases report with ⟨target, place⟩
            intro listing
            cases listing with
            | here speaks =>
                rcases speaks with marked | ⟨noStruct, _⟩
                · exact absurd marked unmarked
                · exact absurd ⟨structId, members, found⟩ noStruct
            | @member _ child _ name rest _ isMember later =>
                obtain ⟨schema, pair⟩ := Tree.mem_zip_of_member? nodeEq isMember
                have inMembers := (List.of_mem_zip pair).1
                exact ⟨_, pair, (target, rest),
                  (each _ inMembers (schemaAt_of_mem_zip schemas pair)
                    (inner _ inMembers)).mpr later, rfl⟩
  | _ =>
      have noStruct : ¬ IsStruct tree.nodes id := by
        rintro ⟨structId, members, isSchema⟩
        rw [found] at isSchema
        cases isSchema
      have marks := Branch.hasMark_ofNode_iff sound found
      rw [← speaks_iff_of_not_isStruct noStruct] at marks
      rw [reportsAt_of_not_struct (by simp)]
      constructor
      · intro listed
        split at listed
        · obtain rfl := List.mem_singleton.mp listed
          exact .here (marks.mp ‹_›)
        · cases listed
      · rcases report with ⟨target, place⟩
        rintro (speaks | ⟨_, isMember, _⟩)
        · rw [if_pos (marks.mpr speaks)]
          exact List.mem_singleton_self _
        · exact absurd (Tree.exists_struct_of_member? isMember) noStruct

end Reports

namespace Branch

/-- Anything but a structure is listed as a whole. -/
theorem changedPlaces_ofNode {nodes : Array Node} {schema : Schema}
    (other : ∀ id members, schema ≠ .struct id members) (id : Nat) :
    (ofNode nodes schema id).changedPlaces =
      if (ofNode nodes schema id).hasMark then [[]] else [] := by
  cases schema with
  | struct structId members => exact absurd rfl (other structId members)
  | _ =>
      unfold ofNode
      split <;> rfl

theorem memberChangedPlaces_ofMembers {nodes : Array Node} {members : List (String × Schema)}
    (each : ∀ member ∈ members, ∀ id,
      (ofNode nodes member.2 id).changedPlaces = (reportsAt nodes member.2 id).map (·.2))
    (children : List Nat) :
    memberChangedPlaces (ofMembers nodes members children) =
      (memberReports nodes members children).map (·.2) := by
  induction members generalizing children with
  | nil => rfl
  | cons member rest ih =>
      cases children with
      | nil => rfl
      | cons child others =>
          have first := each member List.mem_cons_self child
          have later := ih (fun member inside => each member (List.mem_cons_of_mem _ inside)) others
          simp [ofMembers, memberChangedPlaces, memberReports, first, later, Function.comp_def]

/-- The places of a branch are the paths of the reports at its node. -/
theorem changedPlaces_eq_map_reportsAt (nodes : Array Node) (schema : Schema) (id : Nat) :
    (ofNode nodes schema id).changedPlaces = (reportsAt nodes schema id).map (·.2) := by
  induction schema generalizing id with
  | struct structId members each =>
      simp only [ofNode, reportsAt]
      rcases nodes[id]? with _ | ⟨schema, content, changed⟩
      · rfl
      · cases content with
        | struct children =>
            cases changed with
            | true => rfl
            | false => exact memberChangedPlaces_ofMembers each children
        | _ => rfl
  | _ =>
      rw [changedPlaces_ofNode (by simp), reportsAt_of_not_struct (by simp)]
      split <;> rfl

end Branch

end ProcessImage.Wire
