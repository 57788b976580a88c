import ProcessImage.Proofs.Wire.Evolution
import ProcessImage.Wire.Assign

/-!
# Edited trees

An `Edit` is an attempt to change a tree: a setter of one node, a mark, or the
writing of a whole value.  Setters that are refused leave the tree as it was,
and a value that does not fit leaves what was written before.

Every edit is an evolution, so edits of a fresh tree keep its nodes sound and
its root where it was: `exists_root_edited`.
-/

namespace ProcessImage.Wire

open Arena

/-- One attempt to change a tree. -/
inductive Edit where
  | putScalar (id : Nat) (datum : Datum)
  | putScalarArray (id : Nat) (tag : Tag) (items : List Datum)
  | resize (id : Nat) (length : Nat)
  | select (id : Nat) (name : String)
  | mark (id : Nat)
  | markRoot
  | unmarkAll
  | write (value : Value)

/-- The tree after an attempt to change it. -/
def Edit.apply (tree : Tree) : Edit → Tree
  | .putScalar id datum =>
      match tree.putScalar id datum with
      | .ok after => after
      | .error _ => tree
  | .putScalarArray id tag items =>
      match DatumArray.ofItems tag items >>= tree.putScalarArray id with
      | .ok after => after
      | .error _ => tree
  | .resize id length =>
      match tree.resize id length with
      | .ok (after, _) => after
      | .error _ => tree
  | .select id name =>
      match tree.select id name with
      | .ok (after, _) => after
      | .error _ => tree
  | .mark id => tree.mark id
  | .markRoot => tree.markRoot
  | .unmarkAll => tree.unmarkAll
  | .write value => (tree.write value).1

/-- The tree after attempts to change it, one after the other. -/
def Tree.edited (tree : Tree) (edits : List Edit) : Tree :=
  edits.foldl Edit.apply tree

namespace Tree

variable {tree : Tree}

/-! ## Writing values -/

/-- Fields are written as elements would be: their names do not count. -/
theorem assignFields_eq_assignElements (tree : Tree) (ids : List Nat)
    (fields : List (String × Value)) :
    assignFields tree ids fields = assignElements tree ids (fields.map (·.2)) := by
  induction fields generalizing tree ids with
  | nil => cases ids <;> simp [assignFields, assignElements]
  | cons field rest ih =>
      rcases field with ⟨name, value⟩
      cases ids with
      | nil => simp [assignFields, assignElements]
      | cons id others =>
          simp only [assignFields, assignElements, List.map_cons]
          rcases assign tree id value with ⟨next, _ | _⟩
          · rfl
          · exact ih next others

/-- Writing values below nodes touches what is below these nodes. -/
theorem evolution_assignElements (values : List Value)
    (each : ∀ value ∈ values, ∀ tree : Tree, Sound tree.nodes → ∀ id,
      Evolution (Below tree.nodes id) tree (tree.assign id value).1)
    (sound : Sound tree.nodes) (ids : List Nat) :
    Evolution (fun id => ∃ top ∈ ids, Below tree.nodes top id) tree
      (tree.assignElements ids values).1 := by
  induction values generalizing tree ids with
  | nil => cases ids <;> exact Evolution.refl _ sound
  | cons value rest ih =>
      cases ids with
      | nil => exact Evolution.refl _ sound
      | cons top others =>
          have first := each value List.mem_cons_self tree sound top
          unfold assignElements
          rcases written : assign tree top value with ⟨next, _ | _⟩
          · rw [written] at first
            exact first.mono fun id _ inside => ⟨top, List.mem_cons_self, inside⟩
          · rw [written] at first
            have later := ih (fun value inside => each value (List.mem_cons_of_mem _ inside))
              first.sound others
            apply (first.trans later).mono
            rintro id old (inside | ⟨other, isOther, inside⟩)
            · exact ⟨top, List.mem_cons_self, inside⟩
            · rcases first.growth.below inside with above | new
              · exact ⟨other, List.mem_cons_of_mem _ isOther, above⟩
              · omega

/-- The members of a structure are its children. -/
theorem mem_childrenAt_of_mem_members {id child : Nat}
    (inside : child ∈ (tree.members id).map (·.2)) : child ∈ childrenAt tree.nodes id := by
  obtain ⟨⟨name, _⟩, isMember, rfl⟩ := List.mem_map.mp inside
  unfold members node? at isMember
  split at isMember
  · rename_i children _ found
    have contentEq : contentAt tree.nodes id = some (.struct children) := by simp [contentAt, found]
    rw [childrenAt_of_contentAt contentEq]
    exact (List.of_mem_zip isMember).2
  · cases isMember

/-- A resized array has the yielded nodes as its elements. -/
theorem contentAt_resize (sound : Sound tree.nodes) {id length : Nat} {after : Tree}
    {ids : List Nat} (resized : tree.resize id length = .ok (after, ids)) :
    contentAt after.nodes id = some (.structArray ids) := by
  obtain ⟨current, structId, members, name, fixed, _, found, _, rfl⟩ :=
    resize_eq_ok_iff.mp resized
  have tagged := Schema.Everywhere.element (sound.tagged found)
  have allocated := allocation_allocCopies tagged (length - (current.take length).length) sound
  obtain ⟨content, contentEq⟩ := exists_content (allocated.growth.schema found)
  rw [contentAt_store, if_pos rfl, contentEq]
  rfl

theorem evolution_settle {touched : Nat → Prop} (sound : Sound tree.nodes)
    {attempt : Except Fault Tree}
    (succeeded : ∀ after, attempt = .ok after → Evolution touched tree after) :
    Evolution touched tree (tree.settle attempt).1 := by
  cases attempt with
  | ok after => exact succeeded after rfl
  | error fault => exact Evolution.refl _ sound

theorem evolution_assignScalar (sound : Sound tree.nodes) {id : Nat} {tag : Tag} {datum : Scalar}
    {after : Tree} (assigned : tree.assignScalar id tag datum = .ok after) :
    Evolution (· = id) tree after := by
  unfold assignScalar at assigned
  split at assigned
  · exact evolution_putScalar sound assigned
  · cases assigned

theorem exists_ofItems_of_itemsFor {tag : Tag} {array : Value} {element : DataType}
    {elements : List Value} {items : DatumArray}
    (made : itemsFor tag array element elements = .ok items) :
    ∃ data, DatumArray.ofItems tag data = .ok items := by
  unfold itemsFor at made
  split at made
  · cases made
  · split at made
    · obtain ⟨data, _, madeData⟩ := Outcome.bind_eq_ok_iff.mp made
      exact ⟨data, madeData⟩
    · cases made

theorem evolution_assignScalars (sound : Sound tree.nodes) {id : Nat} {tag : Tag} {array : Value}
    {element : DataType} {elements : List Value} {after : Tree}
    (assigned : tree.assignScalars id tag array element elements = .ok after) :
    Evolution (· = id) tree after := by
  obtain ⟨items, made, put⟩ := Outcome.bind_eq_ok_iff.mp assigned
  obtain ⟨data, madeData⟩ := exists_ofItems_of_itemsFor made
  exact evolution_putScalarArray sound madeData put

theorem resize_of_fitLength {id count : Nat} {fixed : Option Nat}
    {after : Tree} {ids : List Nat} (fitted : tree.fitLength id fixed count = .ok (after, ids)) :
    tree.resize id count = .ok (after, ids) := by
  unfold fitLength at fitted
  split at fitted
  · split at fitted
    · exact fitted
    · cases fitted
  · exact fitted

/-- Writing a value below a node, completely or in part, touches only what is
below that node. -/
theorem evolution_assign (value : Value) (sound : Sound tree.nodes) (id : Nat) :
    Evolution (Below tree.nodes id) tree (tree.assign id value).1 := by
  induction value generalizing tree id with
  | empty =>
      unfold assign
      split <;> exact Evolution.refl _ sound
  | scalar datum =>
      unfold assign
      split
      · exact Evolution.refl _ sound
      · exact evolution_settle sound fun _ assigned =>
          (evolution_assignScalar sound assigned).below
      · exact Evolution.refl _ sound
  | struct name fields each =>
      unfold assign
      split
      · exact Evolution.refl _ sound
      · dsimp only
        split
        · rw [assignFields_eq_assignElements]
          have written := evolution_assignElements (fields.map (·.2))
            (fun value inside tree sound id => by
              obtain ⟨field, isField, rfl⟩ := List.mem_map.mp inside
              exact each field isField sound id)
            sound ((tree.members id).map (·.2))
          apply written.mono
          rintro other _ ⟨child, isChild, inside⟩
          exact inside.head (mem_childrenAt_of_mem_members isChild)
        · exact Evolution.refl _ sound
      · exact Evolution.refl _ sound
  | array name element length elements each =>
      unfold assign
      split
      · exact Evolution.refl _ sound
      · exact evolution_settle sound fun _ assigned =>
          (evolution_assignScalars sound assigned).below
      · split
        · rename_i resized children fitted
          have isResized := resize_of_fitLength fitted
          have first := evolution_resize sound isResized
          have written := evolution_assignElements elements
            (fun value inside _ sound id => each value inside sound id) first.sound children
          apply (first.trans written).mono
          rintro other old (same | ⟨child, isChild, inside⟩)
          · exact same ▸ Relation.ReflTransGen.refl
          · have fromHere : Below resized.nodes id other :=
              inside.head (childrenAt_of_contentAt (contentAt_resize sound isResized) ▸ isChild)
            rcases first.growth.below fromHere with above | new
            · exact above
            · omega
        · exact Evolution.refl _ sound
      · exact Evolution.refl _ sound

theorem evolution_write (value : Value) (sound : Sound tree.nodes) :
    Evolution (fun _ => True) tree (tree.write value).1 := by
  unfold write
  split
  · exact (evolution_assign value sound _).mono fun _ _ _ => trivial
  · exact Evolution.refl _ sound

end Tree

/-! ## Edits -/

/-- An edit of a sound tree is an evolution, accepted or refused. -/
theorem Edit.evolution {tree : Tree} (sound : Sound tree.nodes) (edit : Edit) :
    Evolution (fun _ => True) tree (edit.apply tree) := by
  unfold Edit.apply
  split
  · split
    · rename_i put
      exact (Tree.evolution_putScalar sound put).mono fun _ _ _ => trivial
    · exact Evolution.refl _ sound
  · split
    · rename_i put
      obtain ⟨items, made, put⟩ := Outcome.bind_eq_ok_iff.mp put
      exact (Tree.evolution_putScalarArray sound made put).mono fun _ _ _ => trivial
    · exact Evolution.refl _ sound
  · split
    · rename_i resized
      exact (Tree.evolution_resize sound resized).mono fun _ _ _ => trivial
    · exact Evolution.refl _ sound
  · split
    · rename_i selected
      exact (Tree.evolution_select sound selected).mono fun _ _ _ => trivial
    · exact Evolution.refl _ sound
  · exact (Tree.evolution_mark sound _).mono fun _ _ _ => trivial
  · exact (Tree.evolution_markRoot sound).mono fun _ _ _ => trivial
  · exact (Tree.evolution_unmarkAll sound).mono fun _ _ _ => trivial
  · exact Tree.evolution_write _ sound

namespace Tree

theorem evolution_edited {tree : Tree} (sound : Sound tree.nodes) (edits : List Edit) :
    Evolution (fun _ => True) tree (tree.edited edits) := by
  induction edits generalizing tree with
  | nil => exact Evolution.refl _ sound
  | cons edit rest ih =>
      have first := edit.evolution sound
      exact (first.trans (ih first.sound)).mono fun _ _ _ => trivial

/-- The root of a fresh tree has the schema of the tree. -/
theorem exists_root_ofSchema {schema : Schema} (tagged : schema.WellTagged) :
    ∃ root, (ofSchema schema).root = some root ∧ Sound (ofSchema schema).nodes ∧
      schemaAt (ofSchema schema).nodes root = some schema := by
  have allocated := allocation_alloc tagged sound_empty
  have found : schemaAt (alloc schema #[]).1 (alloc schema #[]).2 = some schema := by
    simpa using allocated.schemas
  exact ⟨(alloc schema #[]).2, rfl, allocated.sound, found⟩

/-- After any edits of a fresh tree, its nodes are sound and its root has the
schema of the tree. -/
theorem exists_root_edited {schema : Schema} (tagged : schema.WellTagged) (edits : List Edit) :
    ∃ root, ((ofSchema schema).edited edits).root = some root ∧
      Sound ((ofSchema schema).edited edits).nodes ∧
      schemaAt ((ofSchema schema).edited edits).nodes root = some schema := by
  obtain ⟨root, isRoot, sound, found⟩ := exists_root_ofSchema tagged
  have evolution := evolution_edited sound edits
  exact ⟨root, evolution.root.trans isRoot, evolution.sound, evolution.growth.schema found⟩

end Tree

end ProcessImage.Wire
