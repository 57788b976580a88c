import ProcessImage.Proofs.Wire.Bare

/-!
# Surveys of marks

The paths to marks are listed without recursion.  A survey keeps the nodes that it
still has to visit on a stack, each with the text of its path.  A marked node is
listed; the members of any other structure come onto the stack; and any other node
is listed when a scan of all that is below it, with a stack of its own, meets a mark.

Surveys and scans of sound nodes end, and a survey lists what `Tree.changedPaths`
says.
-/

namespace ProcessImage.Wire

open Arena

namespace Tree

/-- Whether a scan of nodes and of all that is below them meets a mark, if it ends
within a number of visits. -/
def scanned (tree : Tree) : Nat → List Nat → Option Bool
  | _, [] => some false
  | 0, _ :: _ => none
  | visits + 1, id :: rest =>
      match tree.node? id with
      | none => tree.scanned visits rest
      | some node =>
          if node.changed then some true
          else tree.scanned visits (node.content.children.reverse ++ rest)

/-- The stack entries for the members of the structure at a path. -/
def memberEntries (path : String) (members : List (String × Nat)) : List (Nat × String) :=
  members.map fun member => (member.2, Branch.memberPath path member.1)

/-- The texts that are listed in the end when some are listed already and some
nodes are still to be visited, if that takes no more than a number of visits.  Scans
have a limit of their own. -/
def surveyedFrom (tree : Tree) (limit : Nat) :
    Nat → List (Nat × String) → List String → Option (List String)
  | _, [], texts => some texts
  | 0, _ :: _, _ => none
  | visits + 1, (id, path) :: rest, texts =>
      match tree.node? id with
      | none => none
      | some ⟨_, _, true⟩ => tree.surveyedFrom limit visits rest (texts ++ [path])
      | some ⟨_, .struct _, false⟩ =>
          tree.surveyedFrom limit visits (memberEntries path (tree.members id) ++ rest) texts
      | some ⟨_, _, false⟩ =>
          match tree.scanned limit [id] with
          | none => none
          | some true => tree.surveyedFrom limit visits rest (texts ++ [path])
          | some false => tree.surveyedFrom limit visits rest texts

/-- The texts that a survey of the tree lists, if neither it nor any of its scans
takes more than a number of visits. -/
def surveyed (tree : Tree) (visits : Nat) : Option (List String) :=
  match tree.root with
  | some root => tree.surveyedFrom visits visits [(root, "")] []
  | none => some []

end Tree

/-! ## Scans -/

namespace Arena

/-- A property of all nodes follows when each node has it as soon as its children
do. -/
@[elab_as_elim]
theorem Sound.childInduction {nodes : Array Node} (sound : Sound nodes) {motive : Nat → Prop}
    (step : ∀ id, (∀ child ∈ childrenAt nodes id, motive child) → motive id) (id : Nat) :
    motive id := by
  have bounded : ∀ bound id, (∀ schema ∈ schemaAt nodes id, sizeOf schema < bound) → motive id := by
    intro bound
    induction bound with
    | zero =>
        intro id small
        refine step id fun child inside => ?_
        obtain ⟨schema, _, found, _⟩ := sound.child inside
        exact absurd (small schema found) (Nat.not_lt_zero _)
    | succ bound ih =>
        intro id small
        refine step id fun child inside => ih child fun inner innerEq => ?_
        obtain ⟨schema, other, found, otherEq, smaller⟩ := sound.child inside
        have below := small schema found
        rw [Option.mem_def, otherEq] at innerEq
        cases innerEq
        omega
  cases found : schemaAt nodes id with
  | none => exact bounded 0 id (by simp [found])
  | some schema => exact bounded (sizeOf schema + 1) id (by simp [found])

end Arena

/-- Scanning nodes takes a number of visits: it meets a mark within that number, or
goes on with the rest of the stack after exactly that number. -/
structure Scans (tree : Tree) (visits : Nat) (ids : List Nat) : Prop where
  marked : (∃ id ∈ ids, MarkedBelow tree.nodes id) →
    ∀ more rest, tree.scanned (visits + more) (ids ++ rest) = some true
  unmarked : (∀ id ∈ ids, ¬ MarkedBelow tree.nodes id) →
    ∀ more rest, tree.scanned (visits + more) (ids ++ rest) = tree.scanned more rest

namespace Scans

variable {tree : Tree}

theorem nil (tree : Tree) : Scans tree 0 [] where
  marked := by simp
  unmarked := by simp

theorem cons {visits more id : Nat} {ids : List Nat} (first : Scans tree visits [id])
    (later : Scans tree more ids) : Scans tree (visits + more) (id :: ids) where
  marked := by
    intro marks others rest
    rw [Nat.add_assoc]
    by_cases here : MarkedBelow tree.nodes id
    · exact first.marked ⟨id, by simp, here⟩ _ (ids ++ rest)
    · obtain ⟨other, isOther, marked⟩ := marks
      have inside : other ∈ ids := by
        rcases List.mem_cons.mp isOther with rfl | inside
        · exact absurd marked here
        · exact inside
      exact (first.unmarked (by simpa using here) _ (ids ++ rest)).trans
        (later.marked ⟨other, inside, marked⟩ others rest)
  unmarked := by
    intro clean others rest
    rw [Nat.add_assoc]
    exact (first.unmarked (by simpa using clean id List.mem_cons_self) _ (ids ++ rest)).trans
      (later.unmarked (fun other inside => clean other (List.mem_cons_of_mem _ inside)) others rest)

theorem exists_of_each {ids : List Nat} (each : ∀ id ∈ ids, ∃ visits, Scans tree visits [id]) :
    ∃ visits, Scans tree visits ids := by
  induction ids with
  | nil => exact ⟨0, .nil tree⟩
  | cons id rest ih =>
      obtain ⟨visits, first⟩ := each id List.mem_cons_self
      obtain ⟨more, later⟩ := ih fun id inside => each id (List.mem_cons_of_mem _ inside)
      exact ⟨visits + more, first.cons later⟩

/-- Scanning a node of a sound array ends. -/
theorem exists_of_sound (sound : Sound tree.nodes) (id : Nat) :
    ∃ visits, Scans tree visits [id] := by
  induction id using sound.childInduction with
  | step id each =>
      cases nodeEq : tree.nodes[id]? with
      | none =>
          have unmarked : ¬ MarkedBelow tree.nodes id := by
            rintro ⟨other, below, node, otherEq, _⟩
            rcases Relation.ReflTransGen.cases_head below with rfl | ⟨child, isChild, _⟩
            · rw [nodeEq] at otherEq
              cases otherEq
            · simp [childrenAt, contentAt, nodeEq] at isChild
          refine ⟨1, fun marks => ?_, fun _ more rest => ?_⟩
          · simp [unmarked] at marks
          · rw [Nat.add_comm, List.singleton_append, Tree.scanned, Tree.node?, nodeEq]
      | some node =>
          rcases node with ⟨schema, content, changed⟩
          have marks := markedBelow_iff nodeEq
          rw [childrenAt_of_node nodeEq] at each
          cases changed with
          | true =>
              refine ⟨1, fun _ more rest => ?_, fun clean => ?_⟩
              · rw [Nat.add_comm, List.singleton_append, Tree.scanned, Tree.node?, nodeEq]
                rfl
              · simp [marks] at clean
          | false =>
              obtain ⟨visits, below⟩ : ∃ visits, Scans tree visits content.children.reverse :=
                exists_of_each fun child inside => each child (List.mem_reverse.mp inside)
              have step : ∀ more rest, tree.scanned (visits + 1 + more) ([id] ++ rest) =
                  tree.scanned (visits + more) (content.children.reverse ++ rest) := by
                intro more rest
                rw [Nat.add_right_comm, List.singleton_append, Tree.scanned, Tree.node?, nodeEq]
                rfl
              refine ⟨visits + 1, fun here more rest => ?_, fun clean more rest => ?_⟩
              · rw [step]
                exact below.marked (by simpa [marks] using here) more rest
              · rw [step]
                exact below.unmarked (by simpa [marks] using clean) more rest

end Scans

/-! ## Surveys -/

/-- Surveying stack entries takes a number of visits and lists texts, as long as
scans may take as many visits as the limit says. -/
def Surveys (tree : Tree) (limit visits : Nat) (entries : List (Nat × String))
    (texts : List String) : Prop :=
  ∀ bound ≥ limit, ∀ more rest before,
    tree.surveyedFrom bound (visits + more) (entries ++ rest) before =
      tree.surveyedFrom bound more rest (before ++ texts)

namespace Surveys

variable {tree : Tree} {id : Nat}

theorem nil (tree : Tree) : Surveys tree 0 0 [] [] := by
  intro bound _ more rest before
  simp

theorem append {limit limit' visits visits' : Nat} {entries entries' : List (Nat × String)}
    {texts texts' : List String} (first : Surveys tree limit visits entries texts)
    (later : Surveys tree limit' visits' entries' texts') :
    Surveys tree (max limit limit') (visits + visits') (entries ++ entries') (texts ++ texts') := by
  intro bound enough more rest before
  rw [Nat.add_assoc, List.append_assoc, first bound (by omega), later bound (by omega),
    List.append_assoc]

/-- A marked node is listed. -/
theorem of_marked {schema : Schema} {content : Content}
    (nodeEq : tree.nodes[id]? = some ⟨schema, content, true⟩) (path : String) :
    Surveys tree 0 1 [(id, path)] [path] := by
  intro bound _ more rest before
  rw [Nat.add_comm, List.singleton_append, Tree.surveyedFrom, Tree.node?, nodeEq]

/-- A node that is no structure is listed when there is a mark below it. -/
theorem exists_of_scans (sound : Sound tree.nodes) {schema : Schema} {content : Content}
    (nodeEq : tree.nodes[id]? = some ⟨schema, content, false⟩)
    (other : ∀ members, content ≠ .struct members) {shown : Bool}
    (marks : shown = true ↔ MarkedBelow tree.nodes id) (path : String) :
    ∃ limit, Surveys tree limit 1 [(id, path)] (if shown then [path] else []) := by
  obtain ⟨limit, scans⟩ := Scans.exists_of_sound sound id
  refine ⟨limit, fun bound enough more rest before => ?_⟩
  obtain ⟨spare, rfl⟩ := Nat.exists_eq_add_of_le enough
  have found : tree.scanned (limit + spare) [id] = some shown := by
    cases shown with
    | true => exact scans.marked ⟨id, by simp, marks.mp rfl⟩ spare []
    | false =>
        have clean : ∀ other ∈ [id], ¬ MarkedBelow tree.nodes other := by simp [← marks]
        have none := scans.unmarked clean spare []
        rw [List.append_nil] at none
        rw [none]
        cases spare <;> rfl
  rw [Nat.add_comm 1 more, List.singleton_append, Tree.surveyedFrom, Tree.node?, nodeEq]
  cases content with
  | struct members => exact absurd rfl (other members)
  | _ => cases shown <;> simp [found]

/-- Surveying members lists what their branches list. -/
theorem exists_of_members {members : List (String × Schema)}
    (each : ∀ member ∈ members, ∀ id path, schemaAt tree.nodes id = some member.2 →
      ∃ limit visits, Surveys tree limit visits [(id, path)]
        ((Branch.ofNode tree.nodes member.2 id).changedPaths path))
    {children : List Nat}
    (schemas : children.map (schemaAt tree.nodes) = members.map fun member => some member.2)
    (path : String) :
    ∃ limit visits, Surveys tree limit visits
      (Tree.memberEntries path ((members.map (·.1)).zip children))
      (Branch.memberChangedPaths path (Branch.ofMembers tree.nodes members children)) := by
  induction members generalizing children with
  | nil => exact ⟨0, 0, nil tree⟩
  | cons member rest ih =>
      cases children with
      | nil => cases schemas
      | cons child others =>
          simp only [List.map_cons, List.cons.injEq] at schemas
          obtain ⟨limit, visits, first⟩ := each member List.mem_cons_self child
            (Branch.memberPath path member.1) schemas.1
          obtain ⟨limit', visits', later⟩ := ih
            (fun member inside => each member (List.mem_cons_of_mem _ inside)) schemas.2
          exact ⟨max limit limit', visits + visits', first.append later⟩

/-- Surveying a node of a sound array lists what its branch lists. -/
theorem exists_of_sound (sound : Sound tree.nodes) {schema : Schema}
    (found : schemaAt tree.nodes id = some schema) (path : String) :
    ∃ limit visits, Surveys tree limit visits [(id, path)]
      ((Branch.ofNode tree.nodes schema id).changedPaths path) := by
  induction schema generalizing id path with
  | struct structId members each =>
      obtain ⟨children, changed, nodeEq, schemas⟩ := sound.node_struct found
      rw [Branch.ofNode_struct nodeEq]
      cases changed with
      | true => exact ⟨0, 1, of_marked nodeEq path⟩
      | false =>
          obtain ⟨limit, visits, below⟩ := exists_of_members
            (fun member inside id path innerEq => each member inside innerEq path) schemas path
          refine ⟨limit, visits + 1, fun bound enough more rest before => ?_⟩
          rw [Nat.add_right_comm, List.singleton_append, Tree.surveyedFrom, Tree.node?, nodeEq]
          simp only [Tree.members_of_node nodeEq]
          exact below bound enough more rest before
  | _ =>
      obtain ⟨content, changed, nodeEq⟩ := exists_node found
      have marks := Branch.hasMark_ofNode_iff sound found
      rw [Branch.changedPaths_ofNode (by simp)]
      cases changed with
      | true =>
          have shown := marks.mpr ⟨id, .refl, _, nodeEq, rfl⟩
          rw [if_pos shown]
          exact ⟨0, 1, of_marked nodeEq path⟩
      | false =>
          have other : ∀ members, content ≠ .struct members := by
            rintro members rfl
            exact sound.admits_node nodeEq
          obtain ⟨limit, surveys⟩ := exists_of_scans sound nodeEq other marks path
          exact ⟨limit, 1, surveys⟩

end Surveys

namespace Tree

variable {tree : Tree}

/-- A survey of a sound tree ends with the paths that the tree lists. -/
theorem exists_surveyed_of_sound (sound : Sound tree.nodes) {root : Nat}
    (isRoot : tree.root = some root) {schema : Schema}
    (found : schemaAt tree.nodes root = some schema) :
    ∃ enough, ∀ visits ≥ enough, tree.surveyed visits = some tree.changedPaths := by
  obtain ⟨limit, needed, surveys⟩ := Surveys.exists_of_sound sound found ""
  refine ⟨max limit needed, fun visits enough => ?_⟩
  obtain ⟨spare, visitsEq⟩ := Nat.exists_eq_add_of_le (show needed ≤ visits by omega)
  have listed := surveys visits (by omega) spare [] []
  rw [← visitsEq, List.append_nil, List.nil_append] at listed
  rw [surveyed, isRoot]
  simp only [listed, changedPaths, branch?_eq_some isRoot found]
  cases spare <;> rfl

/-! ## Surveys of bare trees -/

@[simp]
theorem node?_bare (tree : Tree) (id : Nat) :
    tree.bare.node? id = (tree.node? id).map Node.bare := by
  simp [node?]

theorem scanned_bare (tree : Tree) (visits : Nat) (ids : List Nat) :
    tree.bare.scanned visits ids = tree.scanned visits ids := by
  induction visits generalizing ids with
  | zero => cases ids <;> rfl
  | succ visits ih =>
      cases ids with
      | nil => rfl
      | cons id rest =>
          simp only [scanned, node?_bare]
          cases tree.node? id with
          | none => exact ih rest
          | some node => simp [Node.bare, ih]

theorem surveyedFrom_bare (tree : Tree) (limit visits : Nat) (entries : List (Nat × String))
    (texts : List String) :
    tree.bare.surveyedFrom limit visits entries texts =
      tree.surveyedFrom limit visits entries texts := by
  induction visits generalizing entries texts with
  | zero => cases entries <;> rfl
  | succ visits ih =>
      rcases entries with _ | ⟨⟨id, path⟩, rest⟩
      · rfl
      · simp only [surveyedFrom, node?_bare]
        rcases tree.node? id with _ | ⟨schema, content, changed⟩
        · rfl
        · cases changed with
          | true => exact ih rest _
          | false => cases content <;> simp [Node.bare, Content.bare, scanned_bare, ih]

/-- A survey of the bare tree is one of the tree. -/
@[simp]
theorem surveyed_bare (tree : Tree) (visits : Nat) :
    tree.bare.surveyed visits = tree.surveyed visits := by
  unfold surveyed
  simp only [root_bare, surveyedFrom_bare]

end Tree

end ProcessImage.Wire
