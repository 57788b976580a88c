import ProcessImage.Proofs.Wire.Edit.InPlace
import ProcessImage.Proofs.Wire.Separation

/-!
# Intact trees

A tree is `Intact` when its nodes form what the readers of a tree rely on: each
node holds what its schema asks for, references lead to nodes that are there, no
node has two parents or is below itself, and the root, which has no parent, still
has the schema that the tree was made for.

A fresh tree is intact, and edits that work on it in place keep it so, whatever
nodes they name and whether or not they fail: `intact_worked`.
-/

namespace ProcessImage.Wire

open Arena

/-- A tree of a schema whose nodes can be relied on. -/
structure Tree.Intact (tree : Tree) (schema : Schema) (root : Nat) : Prop where
  /-- What a node holds fits its schema. -/
  admits : ∀ {id : Nat} {node : Node}, tree.nodes[id]? = some node →
    node.schema.Admits (schemaAt tree.nodes) node.content
  /-- References lead to nodes that are there. -/
  inside : ∀ {parent child}, child ∈ childrenAt tree.nodes parent → child < tree.nodes.size
  /-- No node refers to another twice. -/
  nodup : ∀ parent, (childrenAt tree.nodes parent).Nodup
  /-- No two nodes refer to the same one. -/
  unshared : ∀ {parent other child}, child ∈ childrenAt tree.nodes parent →
    child ∈ childrenAt tree.nodes other → parent = other
  /-- No node is reached from itself by way of children. -/
  acyclic : ∀ id, ¬ Relation.TransGen (fun parent child => child ∈ childrenAt tree.nodes parent)
    id id
  isRoot : tree.root = some root
  rootSchema : schemaAt tree.nodes root = some schema
  /-- No node refers to the root. -/
  top : Orphan tree.nodes root

/-- In a sound array no node is reached from itself. -/
theorem Arena.Sound.acyclic {nodes : Array Node} (sound : Sound nodes) (id : Nat) :
    ¬ Relation.TransGen (fun parent child => child ∈ childrenAt nodes parent) id id := by
  intro cycle
  rcases Relation.TransGen.head'_iff.mp cycle with ⟨child, step, back⟩
  exact sound.not_below_child step back

namespace Tree

/-- A tree with sound nodes is intact when its root has a schema and no parent. -/
theorem Intact.of_sound {tree : Tree} {schema : Schema} {root : Nat} (sound : Sound tree.nodes)
    (isRoot : tree.root = some root) (found : schemaAt tree.nodes root = some schema)
    (top : Orphan tree.nodes root) : tree.Intact schema root where
  admits nodeEq := sound.admits (schemaAt_of_node nodeEq) (contentAt_of_node nodeEq)
  inside := sound.child_lt_size
  nodup := sound.nodup
  unshared := sound.unique
  acyclic := sound.acyclic
  isRoot := isRoot
  rootSchema := found
  top := top

/-- A tree stays intact as it evolves. -/
theorem Intact.evolve {before after : Tree} {schema : Schema} {root : Nat}
    {touched : Nat → Prop} (intact : before.Intact schema root)
    (evolution : Evolution touched before after) : after.Intact schema root := by
  apply Intact.of_sound evolution.sound
  · exact evolution.root.trans intact.isRoot
  · exact evolution.growth.schema intact.rootSchema
  · exact evolution.growth.orphan intact.top (lt_size_of_schemaAt intact.rootSchema)

/-- A fresh tree is intact. -/
theorem intact_ofSchema {schema : Schema} (tagged : schema.WellTagged) :
    ∃ root, (ofSchema schema).Intact schema root := by
  obtain ⟨root, isRoot, sound, found⟩ := exists_root_ofSchema tagged
  have allocated := allocation_alloc tagged sound_empty
  refine ⟨root, Intact.of_sound sound isRoot found ?_⟩
  obtain rfl : (alloc schema #[]).2 = root := Option.some.inj isRoot
  exact allocated.orphan _ List.mem_cons_self

/-- Edits that work on a fresh tree, on whatever nodes and whether or not they
fail, keep it intact around one root.  Another edit takes no node away and changes
no schema, and unless it writes a whole value it leaves everything as it was when
it fails. -/
theorem intact_worked {schema : Schema} (tagged : schema.WellTagged) :
    ∃ root, ∀ edits : List Edit,
      ((ofSchema schema).worked edits).Intact schema root ∧
        ∀ edit : Edit,
          (∀ id inner, schemaAt ((ofSchema schema).worked edits).nodes id = some inner →
            schemaAt ((ofSchema schema).worked (edits ++ [edit])).nodes id = some inner) ∧
          ((∀ value, edit ≠ .write value) → ∀ fault after,
            edit.program ((ofSchema schema).worked edits) = .error fault after →
              after = (ofSchema schema).worked edits) := by
  obtain ⟨root, fresh⟩ := intact_ofSchema tagged
  obtain ⟨_, _, soundFresh, _⟩ := exists_root_ofSchema tagged
  refine ⟨root, fun edits => ?_⟩
  rw [worked_eq_edited]
  have evolution := evolution_edited soundFresh edits
  constructor
  · exact fresh.evolve evolution
  · intro edit
    constructor
    · intro id inner found
      have later := edit.evolution evolution.sound
      rw [worked_eq_edited, edited, List.foldl_append]
      exact later.growth.schema found
    · intro partly fault after failed
      exact Edit.eq_of_program_eq_error partly failed

/-- A tree with an array of points and a choice: points come and go, a point that
is gone is still set, a choice is made twice, and a setter of the wrong kind
fails. -/
theorem intact_worked_points :
    let point := [("x", Schema.scalar (.scalar .int))]
    let schema := Schema.struct none
      [("points", .structArray (some "Point") point none none), ("choice", .union none point)]
    let edits := [Edit.resize 0 2, .resize 0 1, .putScalar 5 (.zeroOf .int), .select 1 "x",
      .select 1 "x", .mark 6]
    let refused := Edit.putScalar 4 (.zeroOf .int)
    schema.WellTagged ∧ ∃ root, ((ofSchema schema).worked edits).Intact schema root ∧
      ∃ fault after, refused.program ((ofSchema schema).worked edits) = .error fault after ∧
        after = (ofSchema schema).worked edits := by
  intro point schema edits refused
  have tagged : schema.WellTagged := by
    simp [schema, point, Schema.WellTagged, Schema.Everywhere, Schema.MembersEverywhere,
      Schema.HasOwnTag, Tag.isScalar]
  obtain ⟨root, always⟩ := intact_worked tagged
  obtain ⟨intact, kept⟩ := always edits
  have refuses :
      (((ofSchema schema).worked edits).putScalar 4 (.zeroOf .int)).toOption.isNone = true := by
    decide +kernel
  refine ⟨tagged, root, intact, ?_⟩
  generalize (ofSchema schema).worked edits = tree at kept refuses
  have ran : refused.program tree = _ := TreeProgram.putScalar_apply 4 (.zeroOf .int) tree
  cases outcome : tree.putScalar 4 (.zeroOf .int) with
  | ok _ => simp [outcome, Except.toOption] at refuses
  | error fault =>
      rw [outcome] at ran
      exact ⟨fault, tree, ran, (kept refused).2 (by simp [refused]) fault tree ran⟩

end Tree

end ProcessImage.Wire
