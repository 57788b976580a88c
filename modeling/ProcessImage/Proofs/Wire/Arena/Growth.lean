import ProcessImage.Proofs.Wire.Arena

/-!
# Growing node arrays

Node arrays change by `Growth` only: no node goes away or changes its schema,
and a node comes to refer to new nodes at most.  So what is below a node later
was below it before or is new, and a node that nobody refers to stays alone.

There are two ways to grow.  An `Allocation` adds nodes, of which those that it
yields are not referred to by any other.  Storing content in a node keeps an
array sound when the content refers to earlier children of the node or to
nodes that are not referred to yet.
-/

namespace ProcessImage.Wire.Arena

/-! ## Growth -/

/-- One array of nodes comes after another: nodes keep their schemas, and what
they refer to is new or was referred to before. -/
structure Growth (before after : Array Node) : Prop where
  size_le : before.size ≤ after.size
  schema : ∀ {id schema}, schemaAt before id = some schema → schemaAt after id = some schema
  children : ∀ {parent child}, child ∈ childrenAt after parent →
    child ∈ childrenAt before parent ∨ before.size ≤ child

namespace Growth

theorem refl (nodes : Array Node) : Growth nodes nodes :=
  ⟨Nat.le_refl _, id, Or.inl⟩

theorem trans {first second third : Array Node} (earlier : Growth first second)
    (later : Growth second third) : Growth first third where
  size_le := Nat.le_trans earlier.size_le later.size_le
  schema found := later.schema (earlier.schema found)
  children inside := by
    rcases later.children inside with old | new
    · exact earlier.children old
    · exact Or.inr (Nat.le_trans earlier.size_le new)

variable {before after : Array Node}

/-- Nodes of known schemas keep them. -/
theorem map_schemaAt (growth : Growth before after) {ids : List Nat} {schemas : List Schema}
    (found : ids.map (schemaAt before) = schemas.map some) :
    ids.map (schemaAt after) = schemas.map some := by
  rw [← found]
  apply List.map_congr_left
  intro id inside
  have known : schemaAt before id ∈ schemas.map some := found ▸ List.mem_map_of_mem inside
  obtain ⟨schema, _, same⟩ := List.mem_map.mp known
  rw [← same, growth.schema same.symm]

/-- A node that nobody refers to stays alone. -/
theorem orphan (growth : Growth before after) {id : Nat} (orphan : Orphan before id)
    (old : id < before.size) : Orphan after id := by
  intro parent inside
  rcases growth.children inside with same | new
  · exact orphan parent same
  · omega

/-- What is below a node was below it before, or is new. -/
theorem below (growth : Growth before after) {top id : Nat} (below : Below after top id) :
    Below before top id ∨ before.size ≤ id := by
  induction below with
  | refl => exact Or.inl Relation.ReflTransGen.refl
  | tail _ step ih =>
      rcases growth.children step with same | new
      · rcases ih with above | outside
        · exact Or.inl (above.tail same)
        · have inside := lt_size_of_mem_childrenAt same
          omega
      · exact Or.inr new

end Growth

/-! ## Allocation -/

/-- Nodes of given schemas were added under the given numbers: no old node
changed, and no node refers to those numbers. -/
structure Allocation (before after : Array Node) (schemas : List Schema) (ids : List Nat) :
    Prop where
  sound : Sound after
  growth : Growth before after
  same : ∀ id < before.size, after[id]? = before[id]?
  schemas : ids.map (schemaAt after) = schemas.map some
  fresh : ∀ id ∈ ids, before.size ≤ id
  orphan : ∀ id ∈ ids, Orphan after id
  nodup : ids.Nodup

namespace Allocation

variable {before middle after : Array Node} {schemas others : List Schema} {ids more : List Nat}

theorem nil (sound : Sound before) : Allocation before before [] [] where
  sound := sound
  growth := Growth.refl before
  same _ _ := rfl
  schemas := rfl
  fresh := by simp
  orphan := by simp
  nodup := List.nodup_nil

theorem bounded (allocated : Allocation before after schemas ids) :
    ∀ id ∈ ids, id < after.size := by
  intro id inside
  have found : schemaAt after id ∈ ids.map (schemaAt after) := List.mem_map_of_mem inside
  rw [allocated.schemas] at found
  obtain ⟨schema, _, same⟩ := List.mem_map.mp found
  exact lt_size_of_schemaAt same.symm

theorem schemaAt_of_copy {schema : Schema} {count : Nat}
    (allocated : Allocation before after (List.replicate count schema) ids) {id : Nat}
    (inside : id ∈ ids) : schemaAt after id = some schema := by
  have found : schemaAt after id ∈ ids.map (schemaAt after) := List.mem_map_of_mem inside
  rw [allocated.schemas] at found
  obtain ⟨copy, isCopy, same⟩ := List.mem_map.mp found
  rw [← same, (List.mem_replicate.mp isCopy).2]

/-- One allocation after another is an allocation of both. -/
theorem append (first : Allocation before middle schemas ids)
    (second : Allocation middle after others more) :
    Allocation before after (schemas ++ others) (ids ++ more) where
  sound := second.sound
  growth := first.growth.trans second.growth
  same id old := (second.same id (Nat.lt_of_lt_of_le old first.growth.size_le)).trans
    (first.same id old)
  schemas := by
    have kept : ids.map (schemaAt after) = ids.map (schemaAt middle) := by
      apply List.map_congr_left
      intro id inside
      have found := first.bounded id inside
      simp [schemaAt, second.same id found]
    rw [List.map_append, List.map_append, second.schemas, kept, first.schemas]
  fresh id inside := by
    rcases List.mem_append.mp inside with early | late
    · exact first.fresh id early
    · exact Nat.le_trans first.growth.size_le (second.fresh id late)
  orphan id inside := by
    rcases List.mem_append.mp inside with early | late
    · exact second.growth.orphan (first.orphan id early) (first.bounded id early)
    · exact second.orphan id late
  nodup := by
    rw [List.nodup_append]
    refine ⟨first.nodup, second.nodup, ?_⟩
    intro early earlyMem late lateMem same
    have bound := first.bounded early earlyMem
    have fresh := second.fresh late lateMem
    omega

/-- A node on top of allocated nodes keeps the array sound when its children are
the nodes that were allocated. -/
theorem sound_push (allocated : Allocation before middle schemas ids) {node : Node}
    (tagged : node.schema.WellTagged)
    (admitted : node.schema.Admits (schemaAt middle) node.content)
    (children : node.content.children = ids) : Sound (middle.push node) := by
  have kept : ∀ id inner, schemaAt middle id = some inner →
      schemaAt (middle.push node) id = some inner := fun _ _ => schemaAt_push_of_old node
  constructor
  case tagged =>
    intro id schema found
    rw [schemaAt_push] at found
    split at found
    · exact Option.some.inj found ▸ tagged
    · exact allocated.sound.tagged found
  case admits =>
    intro id schema content found foundContent
    rw [schemaAt_push] at found
    rw [contentAt_push] at foundContent
    split at found
    · rename_i top
      rw [if_pos top] at foundContent
      cases found
      cases foundContent
      exact admitted.mono kept
    · rename_i below
      rw [if_neg below] at foundContent
      exact (allocated.sound.admits found foundContent).mono kept
  case nodup =>
    intro id
    rw [childrenAt_push]
    split
    · exact children ▸ allocated.nodup
    · exact allocated.sound.nodup id
  case unique =>
    intro parent other child inParent inOther
    rw [childrenAt_push] at inParent inOther
    split at inParent <;> split at inOther
    · omega
    · exact absurd inOther (allocated.orphan child (children ▸ inParent) other)
    · exact absurd inParent (allocated.orphan child (children ▸ inOther) parent)
    · exact allocated.sound.unique inParent inOther

/-- A node on top of allocated nodes is a growth when its children are the nodes
that were allocated. -/
theorem growth_push (allocated : Allocation before middle schemas ids) {node : Node}
    (children : node.content.children = ids) : Growth before (middle.push node) where
  size_le := by
    have grown := allocated.growth.size_le
    simp only [Array.size_push]
    omega
  schema found := schemaAt_push_of_old node (allocated.growth.schema found)
  children inside := by
    rw [childrenAt_push] at inside
    split at inside
    · exact Or.inr (allocated.fresh _ (children ▸ inside))
    · exact allocated.growth.children inside

/-- A node on top of allocated nodes is an allocation of its own. -/
theorem push (allocated : Allocation before middle schemas ids) {node : Node}
    (tagged : node.schema.WellTagged)
    (admitted : node.schema.Admits (schemaAt middle) node.content)
    (children : node.content.children = ids) :
    Allocation before (middle.push node) [node.schema] [middle.size] where
  sound := allocated.sound_push tagged admitted children
  growth := allocated.growth_push children
  same id old := by
    have grown := allocated.growth.size_le
    rw [Array.getElem?_push, if_neg (by omega)]
    exact allocated.same id old
  schemas := by simp [schemaAt_push]
  fresh := by simpa using allocated.growth.size_le
  orphan := by
    intro id top parent inside
    rw [List.mem_singleton.mp top, childrenAt_push] at inside
    split at inside
    · have bound := allocated.bounded middle.size (children ▸ inside)
      omega
    · obtain ⟨_, _, _, found, _⟩ := allocated.sound.child inside
      have old := lt_size_of_schemaAt found
      omega
  nodup := by simp

end Allocation

/-! ## Allocating schemas -/

@[simp]
theorem tag_zeroOf (element : Element) : (Datum.zeroOf element).tag = .scalar element := by
  simp [Datum.tag, Datum.element, Datum.zeroOf]

@[simp]
theorem element_zeroOf (element : Element) : (Datum.zeroOf element).element = element := by
  simp [Datum.element, Datum.zeroOf]

/-- Members are allocated one after another. -/
theorem allocation_allocMembers {members : List (String × Schema)}
    (each : ∀ member ∈ members, ∀ nodes, Sound nodes →
      Allocation nodes (alloc member.2 nodes).1 [member.2] [(alloc member.2 nodes).2])
    {nodes : Array Node} (sound : Sound nodes) :
    Allocation nodes (allocMembers members nodes).1 (members.map (·.2))
      (allocMembers members nodes).2 := by
  induction members generalizing nodes with
  | nil => exact Allocation.nil sound
  | cons member rest ih =>
      have first := each member List.mem_cons_self nodes sound
      have others := ih (fun member inside => each member (List.mem_cons_of_mem _ inside))
        first.sound
      exact first.append others

/-- A well-tagged schema is allocated as the schema of one node. -/
theorem allocation_alloc {schema : Schema} (tagged : schema.WellTagged) {nodes : Array Node}
    (sound : Sound nodes) :
    Allocation nodes (alloc schema nodes).1 [schema] [(alloc schema nodes).2] := by
  induction schema generalizing nodes with
  | scalar tag =>
      obtain ⟨element, rfl⟩ := tagged.exists_element
      exact (Allocation.nil sound).push tagged (by simp [Schema.Admits, freshDatum]) rfl
  | scalarArray tag name length =>
      obtain ⟨element, rfl⟩ := tagged.exists_arrayElement
      refine (Allocation.nil sound).push tagged ?_ rfl
      cases length with
      | none => simp [Schema.Admits, freshItems, Tag.arrayElement?]
      | some count => simp [Schema.Admits, freshItems, Tag.arrayElement?]
  | struct id members each =>
      have inner := Schema.Everywhere.members_of_struct tagged
      have allocated := allocation_allocMembers
        (fun member inside nodes sound => each member inside (inner member inside) sound) sound
      have admitted : (Schema.struct id members).Admits
          (schemaAt (allocMembers members nodes).1) (.struct (allocMembers members nodes).2) := by
        simp [Schema.Admits, allocated.schemas, Function.comp_def]
      exact allocated.push tagged admitted rfl
  | structArray id members name length =>
      exact (Allocation.nil sound).push tagged (by simp [Schema.Admits]) rfl
  | union id members =>
      exact (Allocation.nil sound).push tagged (by simp [Schema.Admits]) rfl
  | unionArray id members =>
      exact (Allocation.nil sound).push tagged (by simp [Schema.Admits]) rfl

/-- Copies of a schema are allocated as members without names would be. -/
theorem allocCopies_eq_allocMembers (schema : Schema) (count : Nat) (nodes : Array Node) :
    allocCopies schema count nodes = allocMembers (List.replicate count ("", schema)) nodes := by
  induction count generalizing nodes with
  | zero => rfl
  | succ count ih => simp [allocCopies, allocMembers, List.replicate_succ, ih]

/-- Copies of a well-tagged schema are allocated as so many nodes. -/
theorem allocation_allocCopies {schema : Schema} (tagged : schema.WellTagged) (count : Nat)
    {nodes : Array Node} (sound : Sound nodes) :
    Allocation nodes (allocCopies schema count nodes).1 (List.replicate count schema)
      (allocCopies schema count nodes).2 := by
  rw [allocCopies_eq_allocMembers]
  have each : ∀ member ∈ List.replicate count ("", schema), ∀ nodes, Sound nodes →
      Allocation nodes (alloc member.2 nodes).1 [member.2] [(alloc member.2 nodes).2] := by
    intro member inside nodes sound
    rw [(List.mem_replicate.mp inside).2]
    exact allocation_alloc tagged sound
  simpa using allocation_allocMembers each sound

/-! ## Storing content -/

/-- Storing keeps an array sound when the content fits and takes over only
children that the node had or that nobody has. -/
theorem sound_store {tree : Tree} (sound : Sound tree.nodes) {target : Nat} {schema : Schema}
    (found : schemaAt tree.nodes target = some schema) {content : Content}
    (admitted : schema.Admits (schemaAt tree.nodes) content) (nodup : content.children.Nodup)
    (free : ∀ child ∈ content.children,
      child ∈ childrenAt tree.nodes target ∨ Orphan tree.nodes child) :
    Sound (tree.store target content).nodes := by
  have schemas : schemaAt (tree.store target content).nodes = schemaAt tree.nodes :=
    funext fun id => schemaAt_store tree target content id
  -- A child of the new content is a child of no other node, in either role.
  have alone : ∀ child ∈ content.children, ∀ parent, child ∈ childrenAt tree.nodes parent →
      target = parent := by
    intro child inside parent inParent
    rcases free child inside with own | orphan
    · exact sound.unique own inParent
    · exact absurd inParent (orphan parent)
  constructor
  case tagged =>
    intro id schema found
    rw [schemaAt_store] at found
    exact sound.tagged found
  case admits =>
    intro id other stored otherFound storedEq
    rw [schemaAt_store] at otherFound
    rw [contentAt_store] at storedEq
    rw [schemas]
    split at storedEq
    · rename_i same
      subst same
      obtain ⟨_, _, rfl⟩ := Option.map_eq_some_iff.mp storedEq
      rw [found] at otherFound
      exact Option.some.inj otherFound ▸ admitted
    · exact sound.admits otherFound storedEq
  case nodup =>
    intro id
    rw [childrenAt_store found]
    split
    · exact nodup
    · exact sound.nodup id
  case unique =>
    intro parent other child inParent inOther
    rw [childrenAt_store found] at inParent inOther
    split at inParent <;> split at inOther
    · omega
    · exact absurd (alone child inParent other inOther) ‹_›
    · exact absurd (alone child inOther parent inParent) ‹_›
    · exact sound.unique inParent inOther

/-- Storing grows an array beyond an earlier one when the content refers to
nodes that are new since then, or that the node referred to. -/
theorem Growth.store {before : Array Node} {tree : Tree} (growth : Growth before tree.nodes)
    {target : Nat} {schema : Schema} (found : schemaAt tree.nodes target = some schema)
    {content : Content}
    (children : ∀ child ∈ content.children,
      child ∈ childrenAt before target ∨ before.size ≤ child) :
    Growth before (tree.store target content).nodes where
  size_le := by
    have grown := growth.size_le
    simpa [Tree.store] using grown
  schema known := by
    rw [schemaAt_store]
    exact growth.schema known
  children inside := by
    rw [childrenAt_store found] at inside
    split at inside
    · rename_i same
      exact same ▸ children _ inside
    · exact growth.children inside

end ProcessImage.Wire.Arena
