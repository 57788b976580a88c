import ProcessImage.Proofs.Wire.Edit

/-!
# Setters at work

The setters of a tree yield a new tree or a fault.  The programs here do the same
on one tree in place, node by node: they look a node up, add nodes one at a time
and store content at the end, and a program that fails leaves whatever it did
until then.

The setters of single nodes turn out to be all or nothing.  Resizing and selecting
add nodes before they look their own node up once more, but that node is still
there, so the second look-up never fails.
-/

namespace ProcessImage.Wire

/-- A program that works on a tree in place. -/
abbrev TreeProgram :=
  EStateM Fault Tree

namespace TreeProgram

/-! ## Programs -/

/-- Looks a node up. -/
def node (id : Nat) : TreeProgram Node := do
  match (← get).node? id with
  | some node => return node
  | none => throw (.noNode id)

/-- Adds one node, and yields its number. -/
def push (node : Node) : TreeProgram Nat :=
  modifyGet fun tree => (tree.nodes.size, { tree with nodes := tree.nodes.push node })

/-- Looks a node up, gives it new content and marks it. -/
def store (id : Nat) (content : Content) : TreeProgram Unit := do
  let _ ← node id
  modify fun tree => tree.store id content

mutual

/-- Adds the nodes of a schema one by one, members before their structure. -/
def alloc : Schema → TreeProgram Nat
  | .scalar tag => push ⟨.scalar tag, .scalar (freshDatum tag), false⟩
  | .scalarArray tag name length =>
      push ⟨.scalarArray tag name length, .scalarArray ⟨tag, freshItems tag length⟩, false⟩
  | .struct id members => do
      let children ← allocMembers members
      push ⟨.struct id members, .struct children, false⟩
  | .structArray id members name length =>
      push ⟨.structArray id members name length, .structArray [], false⟩
  | .union id members => push ⟨.union id members, .union none, false⟩
  | .unionArray id members => push ⟨.unionArray id members, .unionArray [], false⟩

/-- Adds the nodes of members in order. -/
def allocMembers : List (String × Schema) → TreeProgram (List Nat)
  | [] => return []
  | (_, schema) :: rest => do
      let child ← alloc schema
      let children ← allocMembers rest
      return child :: children

end

/-- Adds elements to those of an array, one by one. -/
def extend (element : Schema) (elements : List Nat) : Nat → TreeProgram (List Nat)
  | 0 => return elements
  | missing + 1 => do
      let added ← alloc element
      extend element (elements ++ [added]) missing

/-- Sets a scalar. -/
def putScalar (id : Nat) (datum : Datum) : TreeProgram Unit := do
  let found ← node id
  match found.content with
  | .scalar current =>
      if current.element = datum.element then store id (.scalar datum)
      else throw (.mismatch (.tag found.schema.tag) (.tag datum.tag))
  | _ => throw (.mismatch (.tag found.schema.tag) (.tag datum.tag))

/-- Sets an array of scalars. -/
def putScalarArray (id : Nat) (items : DatumArray) : TreeProgram Unit := do
  let found ← node id
  match found.schema with
  | .scalarArray tag _ length =>
      if tag = items.tag then
        match length with
        | some length =>
            if items.items.length = length then store id (.scalarArray items)
            else throw (.mismatch (.elements length) (.elements items.items.length))
        | none => store id (.scalarArray items)
      else throw (.mismatch (.tag tag) (.tag items.tag))
  | schema => throw (.mismatch (.tag schema.tag) (.tag items.tag))

/-- Cuts an array of structures, or extends it by fresh elements. -/
def resize (id : Nat) (length : Nat) : TreeProgram (List Nat) := do
  let found ← node id
  match found.content, found.schema with
  | .structArray current, .structArray structId members _ _ =>
      let kept := current.take length
      let elements ← extend (.struct structId members) kept (length - kept.length)
      store id (.structArray elements)
      return elements
  | _, schema => throw (.mismatch (.tag .structArray) (.tag schema.tag))

/-- Selects a member of a union with a fresh node. -/
def select (id : Nat) (name : String) : TreeProgram Nat := do
  let found ← node id
  match found.schema with
  | .union _ members =>
      match members.findIdx? (·.1 == name), members.lookup name with
      | some position, some schema =>
          let child ← alloc schema
          store id (.union (some (position, child)))
          return child
      | _, _ => throw (.mismatch .unionMember (.name name))
  | schema => throw (.mismatch (.tag .union) (.tag schema.tag))

/-- Writes a value into the whole tree, as far as it fits. -/
def write (value : Value) : TreeProgram Unit := fun tree =>
  match tree.write value with
  | (after, .ok ()) => .ok () after
  | (after, .error fault) => .error fault after

/-- The tree that a program leaves, whether or not it failed. -/
def left {α : Type} (program : TreeProgram α) (tree : Tree) : Tree :=
  match program tree with
  | .ok _ after => after
  | .error _ after => after

end TreeProgram

/-- What an edit does in place. -/
def Edit.program : Edit → TreeProgram Unit
  | .putScalar id datum => TreeProgram.putScalar id datum
  | .putScalarArray id tag items =>
      match DatumArray.ofItems tag items with
      | .ok array => TreeProgram.putScalarArray id array
      | .error fault => throw fault
  | .resize id length => do
      let _ ← TreeProgram.resize id length
  | .select id name => do
      let _ ← TreeProgram.select id name
  | .mark id => modify fun tree => tree.mark id
  | .markRoot => modify Tree.markRoot
  | .unmarkAll => modify Tree.unmarkAll
  | .write value => TreeProgram.write value

namespace TreeProgram

/-! ## Steps of programs -/

variable {α β : Type} {tree : Tree} {id : Nat}

theorem get_apply (tree : Tree) : (get : TreeProgram Tree) tree = .ok tree tree :=
  rfl

theorem node_of_some {found : Node} (nodeEq : tree.nodes[id]? = some found) :
    node id tree = .ok found tree := by
  unfold node
  rw [Outcome.program_bind_apply, get_apply]
  simp only [Tree.node?, nodeEq]
  rfl

theorem node_of_none (absent : tree.nodes[id]? = none) :
    node id tree = .error (.noNode id) tree := by
  unfold node
  rw [Outcome.program_bind_apply, get_apply]
  simp only [Tree.node?, absent]
  rfl

/-- Storing cannot fail in a node that is there. -/
theorem store_of_lt (inside : id < tree.nodes.size) (content : Content) :
    store id content tree = .ok () (tree.store id content) := by
  unfold store
  rw [Outcome.program_bind_apply, node_of_some (Array.getElem?_eq_getElem inside)]
  rfl

/-! ## Adding nodes -/

/-- Members are added one by one as `Wire.allocMembers` adds them. -/
theorem allocMembers_apply {members : List (String × Schema)}
    (each : ∀ member ∈ members, ∀ tree : Tree,
      alloc member.2 tree = .ok (Wire.alloc member.2 tree.nodes).2
        { tree with nodes := (Wire.alloc member.2 tree.nodes).1 }) (tree : Tree) :
    allocMembers members tree = .ok (Wire.allocMembers members tree.nodes).2
      { tree with nodes := (Wire.allocMembers members tree.nodes).1 } := by
  induction members generalizing tree with
  | nil => rfl
  | cons member rest ih =>
      rcases member with ⟨name, schema⟩
      have first := each (name, schema) List.mem_cons_self tree
      have later := ih (fun member inside => each member (List.mem_cons_of_mem _ inside))
      unfold allocMembers Wire.allocMembers
      rw [Outcome.program_bind_apply, first]
      dsimp only
      rw [Outcome.program_bind_apply, later]
      rfl

/-- Nodes are added one by one as `Wire.alloc` adds them. -/
theorem alloc_apply (schema : Schema) (tree : Tree) :
    alloc schema tree = .ok (Wire.alloc schema tree.nodes).2
      { tree with nodes := (Wire.alloc schema tree.nodes).1 } := by
  induction schema generalizing tree with
  | struct id members each =>
      unfold alloc Wire.alloc
      rw [Outcome.program_bind_apply, allocMembers_apply each]
      rfl
  | _ => rfl

/-- Elements are added one by one as `allocCopies` adds them. -/
theorem extend_apply (element : Schema) (elements : List Nat) (missing : Nat) (tree : Tree) :
    extend element elements missing tree =
      .ok (elements ++ (allocCopies element missing tree.nodes).2)
        { tree with nodes := (allocCopies element missing tree.nodes).1 } := by
  induction missing generalizing elements tree with
  | zero => simp [extend, allocCopies, pure, EStateM.pure]
  | succ missing ih =>
      unfold extend allocCopies
      rw [Outcome.program_bind_apply, alloc_apply]
      dsimp only
      rw [ih]
      simp

theorem size_le_allocMembers {members : List (String × Schema)}
    (each : ∀ member ∈ members, ∀ nodes, nodes.size ≤ (Wire.alloc member.2 nodes).1.size)
    (nodes : Array Node) : nodes.size ≤ (Wire.allocMembers members nodes).1.size := by
  induction members generalizing nodes with
  | nil => exact Nat.le_refl _
  | cons member rest ih =>
      have first := each member List.mem_cons_self nodes
      have later := ih (fun member inside => each member (List.mem_cons_of_mem _ inside))
        (Wire.alloc member.2 nodes).1
      exact Nat.le_trans first later

/-- Adding nodes takes none away. -/
theorem size_le_alloc (schema : Schema) (nodes : Array Node) :
    nodes.size ≤ (Wire.alloc schema nodes).1.size := by
  induction schema generalizing nodes with
  | struct id members each =>
      have inner := size_le_allocMembers each nodes
      simp only [Wire.alloc, Array.size_push]
      omega
  | _ => simp [Wire.alloc]

theorem size_le_allocCopies (schema : Schema) (count : Nat) (nodes : Array Node) :
    nodes.size ≤ (allocCopies schema count nodes).1.size := by
  rw [Arena.allocCopies_eq_allocMembers]
  exact size_le_allocMembers (fun member _ => size_le_alloc member.2) nodes

/-! ## All or nothing -/

/-- The result of a program that yields an item and a new tree, or fails and
leaves the tree as it was. -/
def result (tree : Tree) : Except Fault (Tree × α) → EStateM.Result Fault Tree α
  | .ok (after, item) => .ok item after
  | .error fault => .error fault tree

theorem eq_of_result_eq_error {outcome : Except Fault (Tree × α)} {fault : Fault} {after : Tree}
    (failed : result tree outcome = .error fault after) : after = tree := by
  cases outcome with
  | ok made => cases failed
  | error _ =>
      cases failed
      rfl

/-- Setting a scalar in place is all or nothing. -/
theorem putScalar_apply (id : Nat) (datum : Datum) (tree : Tree) :
    putScalar id datum tree = result tree ((tree.putScalar id datum).map (·, ())) := by
  unfold putScalar Tree.putScalar Tree.node Tree.node?
  rw [Outcome.program_bind_apply]
  cases nodeEq : tree.nodes[id]? with
  | none =>
      rw [node_of_none nodeEq]
      rfl
  | some found =>
      have inside := (Array.getElem?_eq_some_iff.mp nodeEq).1
      rw [node_of_some nodeEq]
      rcases found with ⟨schema, content, changed⟩
      cases content with
      | scalar current =>
          by_cases same : current.element = datum.element
          · simp only [same, if_true, Outcome.ok_bind]
            exact store_of_lt inside _
          · simp only [same, if_false, Outcome.ok_bind]
            rfl
      | _ => rfl

/-- Setting an array of scalars in place is all or nothing. -/
theorem putScalarArray_apply (id : Nat) (items : DatumArray) (tree : Tree) :
    putScalarArray id items tree = result tree ((tree.putScalarArray id items).map (·, ())) := by
  unfold putScalarArray Tree.putScalarArray Tree.node Tree.node?
  rw [Outcome.program_bind_apply]
  cases nodeEq : tree.nodes[id]? with
  | none =>
      rw [node_of_none nodeEq]
      rfl
  | some found =>
      have inside := (Array.getElem?_eq_some_iff.mp nodeEq).1
      rw [node_of_some nodeEq]
      rcases found with ⟨schema, content, changed⟩
      cases schema with
      | scalarArray tag name length =>
          by_cases same : tag = items.tag
          · simp only [same, if_true, Outcome.ok_bind]
            cases length with
            | none => exact store_of_lt inside _
            | some count =>
                by_cases fits : items.items.length = count
                · simp only [fits, if_true]
                  exact store_of_lt inside _
                · simp only [fits, if_false]
                  rfl
          · simp only [same, if_false, Outcome.ok_bind]
            rfl
      | _ => rfl

/-- Resizing in place is all or nothing: once elements have been added, storing
them cannot fail any more. -/
theorem resize_apply (id length : Nat) (tree : Tree) :
    resize id length tree = result tree (tree.resize id length) := by
  unfold resize Tree.resize Tree.node Tree.node?
  rw [Outcome.program_bind_apply]
  cases nodeEq : tree.nodes[id]? with
  | none =>
      rw [node_of_none nodeEq]
      rfl
  | some found =>
      have inside := (Array.getElem?_eq_some_iff.mp nodeEq).1
      rw [node_of_some nodeEq]
      rcases found with ⟨schema, content, changed⟩
      cases content with
      | structArray current =>
          cases schema with
          | structArray structId members name fixed =>
              have grown := size_le_allocCopies (.struct structId members)
                (length - (current.take length).length) tree.nodes
              dsimp only
              rw [Outcome.program_bind_apply, extend_apply]
              dsimp only
              rw [Outcome.program_bind_apply, store_of_lt (Nat.lt_of_lt_of_le inside grown)]
              rfl
          | _ => rfl
      | _ => rfl

/-- Selecting in place is all or nothing: once the member has been added, storing
it cannot fail any more. -/
theorem select_apply (id : Nat) (name : String) (tree : Tree) :
    select id name tree = result tree (tree.select id name) := by
  unfold select Tree.select Tree.node Tree.node?
  rw [Outcome.program_bind_apply]
  cases nodeEq : tree.nodes[id]? with
  | none =>
      rw [node_of_none nodeEq]
      rfl
  | some found =>
      have inside := (Array.getElem?_eq_some_iff.mp nodeEq).1
      rw [node_of_some nodeEq]
      rcases found with ⟨schema, content, changed⟩
      cases schema with
      | union unionId members =>
          cases position : members.findIdx? (·.1 == name) with
          | none =>
              simp only [position, Outcome.ok_bind]
              rfl
          | some place =>
              cases found : members.lookup name with
              | none =>
                  simp only [position, found, Outcome.ok_bind]
                  rfl
              | some inner =>
                  have grown := size_le_alloc inner tree.nodes
                  simp only [position, found, Outcome.ok_bind]
                  rw [Outcome.program_bind_apply, alloc_apply]
                  dsimp only
                  rw [Outcome.program_bind_apply, store_of_lt (Nat.lt_of_lt_of_le inside grown)]
                  rfl
      | _ => rfl

end TreeProgram

/-! ## Edits at work -/

open TreeProgram

/-- A setter of one node at work is all or nothing. -/
theorem Edit.program_eq_result (edit : Edit) (partly : ∀ value, edit ≠ .write value)
    (tree : Tree) :
    ∃ outcome : Except Fault (Tree × Unit), edit.program tree = result tree outcome ∧
      edit.apply tree = match outcome with
        | .ok (after, _) => after
        | .error _ => tree := by
  cases edit with
  | putScalar id datum =>
      refine ⟨_, putScalar_apply id datum tree, ?_⟩
      simp only [Edit.apply]
      cases tree.putScalar id datum <;> rfl
  | putScalarArray id tag items =>
      simp only [Edit.program, Edit.apply]
      cases DatumArray.ofItems tag items with
      | error fault => exact ⟨.error fault, rfl, rfl⟩
      | ok array =>
          refine ⟨_, putScalarArray_apply id array tree, ?_⟩
          rw [Outcome.ok_bind]
          cases tree.putScalarArray id array <;> rfl
  | resize id length =>
      simp only [Edit.program, Edit.apply]
      rw [Outcome.program_bind_apply, resize_apply]
      cases tree.resize id length with
      | error fault => exact ⟨.error fault, rfl, rfl⟩
      | ok made => exact ⟨.ok (made.1, ()), rfl, rfl⟩
  | select id name =>
      simp only [Edit.program, Edit.apply]
      rw [Outcome.program_bind_apply, select_apply]
      cases tree.select id name with
      | error fault => exact ⟨.error fault, rfl, rfl⟩
      | ok made => exact ⟨.ok (made.1, ()), rfl, rfl⟩
  | mark id => exact ⟨.ok (tree.mark id, ()), rfl, rfl⟩
  | markRoot => exact ⟨.ok (tree.markRoot, ()), rfl, rfl⟩
  | unmarkAll => exact ⟨.ok (tree.unmarkAll, ()), rfl, rfl⟩
  | write value => exact absurd rfl (partly value)

/-- An edit at work leaves the edited tree. -/
theorem Edit.left_program (edit : Edit) (tree : Tree) :
    edit.program.left tree = edit.apply tree := by
  by_cases whole : ∃ value, edit = .write value
  · rcases whole with ⟨value, rfl⟩
    simp only [left, Edit.program, TreeProgram.write, Edit.apply]
    rcases tree.write value with ⟨after, _ | _⟩ <;> rfl
  · have partly : ∀ value, edit ≠ .write value := fun value same => whole ⟨value, same⟩
    obtain ⟨outcome, ran, applied⟩ := edit.program_eq_result partly tree
    unfold left
    rw [ran, applied]
    cases outcome <;> rfl

/-- A setter of one node that fails at work leaves every node and every mark as it
was. -/
theorem Edit.eq_of_program_eq_error {edit : Edit} (partly : ∀ value, edit ≠ .write value)
    {tree after : Tree} {fault : Fault} (failed : edit.program tree = .error fault after) :
    after = tree := by
  obtain ⟨outcome, ran, _⟩ := edit.program_eq_result partly tree
  rw [ran] at failed
  exact eq_of_result_eq_error failed

/-- The tree that edits leave when they work on it one after the other. -/
def Tree.worked (tree : Tree) (edits : List Edit) : Tree :=
  edits.foldl (fun tree edit => edit.program.left tree) tree

/-- Edits at work leave the edited tree. -/
theorem Tree.worked_eq_edited (tree : Tree) (edits : List Edit) :
    tree.worked edits = tree.edited edits := by
  unfold Tree.worked Tree.edited
  simp only [Edit.left_program]

end ProcessImage.Wire
