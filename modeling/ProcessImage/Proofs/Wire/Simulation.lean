import Mathlib.Data.List.Forall2
import ProcessImage.Proofs.Wire.Fresh
import ProcessImage.Proofs.Wire.Places
import ProcessImage.Proofs.Wire.Schema.OfType

/-!
# Trees as values

A tree that contains no unions stands for the value that is read from it, and the
operations on its nodes are operations on that value: nodes are found where the
value has parts, setting the node at a place sets the value at that place, and
resizing an array there cuts or extends the array in the value.  What is out of
reach of the root stays so, and setting it is not seen.

`Tree.simulates_edited` says so of every tree that edits of a fresh one leave.
-/

namespace ProcessImage.Wire

open Arena Branch

namespace Tree

/-- What is below the node of a number, as a tree of its own. -/
def downFrom (tree : Tree) (id : Nat) : Tree :=
  { tree with root := some id }

/-- A tree stands for a value, and its operations stand for operations on that
value. -/
structure Simulates (tree : Tree) (value : Value) : Prop where
  read : tree.read = .ok value
  /-- Paths lead to a node exactly when they lead to a part of the value, which is
  what is read below that node. -/
  find : ∀ place, Option.Rel (fun id part => (tree.downFrom id).read = .ok part) (tree.find? place)
    (value.get? place)
  putScalar : ∀ {place id datum after}, tree.find? place = some id →
    tree.putScalar id datum = .ok after →
      ∃ updated, value.set? (.scalar datum.scalar) place = some updated ∧ after.read = .ok updated
  /-- An array of scalars keeps its name, its kind and its declared length. -/
  putScalarArray : ∀ {place id tag items array after}, tree.find? place = some id →
    DatumArray.ofItems tag items = .ok array → tree.putScalarArray id array = .ok after →
      ∃ name kind length elements updated,
        value.get? place = some (.array name (.scalar kind) length elements) ∧
        Schema.kindOfTag tag = .ok kind ∧
        value.set? (.array name (.scalar kind) length (itemValues array)) place = some updated ∧
        after.read = .ok updated
  /-- An array of structures keeps its first elements, and the others are what is
  read from a fresh tree of the structure. -/
  resize : ∀ {place id length after ids}, tree.find? place = some id →
    tree.resize id length = .ok (after, ids) →
      ∃ structId members name fixed elements fresh updated,
        schemaAt tree.nodes id = some (.structArray structId members name fixed) ∧
        (ofSchema (.struct structId members)).read = .ok fresh ∧
        value.get? place = some (.array name fresh.typeOf fixed elements) ∧
        value.set? (.array name fresh.typeOf fixed
          (elements.take length ++ List.replicate (length - elements.length) fresh)) place =
            some updated ∧
        after.read = .ok updated
  unreachable : ∀ {root id}, tree.root = some root → id < tree.nodes.size →
    ¬ Below tree.nodes root id →
      (∀ datum after, tree.putScalar id datum = .ok after →
        after.read = tree.read ∧ after.changedPaths = tree.changedPaths) ∧
      (∀ array after, tree.putScalarArray id array = .ok after →
        after.read = tree.read ∧ after.changedPaths = tree.changedPaths) ∧
      ∀ edits, (tree.edited edits).root = some root ∧ ¬ Below (tree.edited edits).nodes root id

variable {tree after : Tree} {id : Nat}

/-- What a node holds is read downwards from that node. -/
theorem read_downFrom {value : Value} (holds : Holds tree.nodes id value) :
    (tree.downFrom id).read = .ok value := by
  rcases holds with ⟨schema, found, _, read⟩
  have isRoot : (tree.downFrom id).root = some id := rfl
  exact (read_eq_read_ofNode isRoot found).trans read

/-! ## Set nodes -/

/-- A scalar that was set holds the new datum. -/
theorem holds_putScalar (sound : Sound tree.nodes) {datum : Datum}
    (put : tree.putScalar id datum = .ok after) : Holds after.nodes id (.scalar datum.scalar) := by
  obtain ⟨current, contentEq, _, rfl⟩ := putScalar_eq_ok_iff.mp put
  have found := sound.schemaAt_of_scalar contentEq
  refine ⟨.scalar current.tag, (schemaAt_store ..).trans found, trivial, ?_⟩
  have stored : contentAt (tree.store id (.scalar datum)).nodes id = some (.scalar datum) := by
    simp [contentAt_store, contentEq]
  obtain ⟨schema, changed, nodeEq⟩ := exists_node_of_contentAt stored
  simp [ofNode, nodeEq, Branch.read]

/-- An array of scalars that was set holds the new items under its name and its
declared length, as it did before. -/
theorem holds_putScalarArray (sound : Sound tree.nodes) {tag : Tag} {items : List Datum}
    {array : DatumArray} (made : DatumArray.ofItems tag items = .ok array)
    (put : tree.putScalarArray id array = .ok after) {part : Value}
    (holds : Holds tree.nodes id part) :
    ∃ name kind length elements, part = .array name (.scalar kind) length elements ∧
      Schema.kindOfTag tag = .ok kind ∧
      Holds after.nodes id (.array name (.scalar kind) length (itemValues array)) := by
  obtain ⟨name, length, found, _, rfl⟩ := putScalarArray_eq_ok_iff.mp put
  obtain ⟨rfl, _, _⟩ := DatumArray.ofItems_eq_ok_iff.mp made
  obtain ⟨current, changed, nodeEq, sameTag⟩ := sound.node_scalarArray found
  rcases holds with ⟨schema, found', _, read⟩
  rw [found] at found'
  cases found'
  simp only [ofNode, nodeEq, Branch.read, sameTag] at read
  obtain ⟨kind, kindEq, same⟩ := Outcome.bind_eq_ok_iff.mp read
  cases same
  refine ⟨name, kind, length, _, rfl, kindEq, _, (schemaAt_store ..).trans found, trivial, ?_⟩
  have stored : contentAt (tree.store id (.scalarArray ⟨tag, items⟩)).nodes id =
      some (.scalarArray ⟨tag, items⟩) := by
    simp [contentAt_store, contentAt_of_node nodeEq]
  obtain ⟨schema, changed', nodeAfter⟩ := exists_node_of_contentAt stored
  simp [ofNode, nodeAfter, Branch.read, kindEq]

/-! ## Resized arrays -/

/-- Branches are read one by one. -/
theorem readAll_map_eq_ok_iff {branch : Nat → Branch} {ids : List Nat} {values : List Value} :
    readAll (ids.map branch) = .ok values ↔
      List.Forall₂ (fun id value => (branch id).read = .ok value) ids values := by
  induction ids generalizing values with
  | nil => simp [readAll, eq_comm]
  | cons id rest ih =>
      constructor
      · intro read
        obtain ⟨value, first, later⟩ := Outcome.bind_eq_ok_iff.mp read
        obtain ⟨others, restRead, same⟩ := Outcome.bind_eq_ok_iff.mp later
        cases same
        exact .cons first (ih.mp restRead)
      · rintro (_ | ⟨first, later⟩)
        simp [readAll, first, ih.mpr later]

/-- An array of structures is read from its elements. -/
theorem read_ofNode_structArray {nodes : Array Node} (sound : Sound nodes)
    {structId : Option String} {members : List (String × Schema)}
    (distinct : (Schema.struct structId members).DistinctNames)
    {types : List (String × DataType)} (typesEq : Schema.memberTypes members = .ok types)
    {name : Option String} {fixed : Option Nat} {elements : List Nat}
    (found : schemaAt nodes id = some (.structArray structId members name fixed))
    (contentEq : contentAt nodes id = some (.structArray elements)) :
    (ofNode nodes (.structArray structId members name fixed) id).read =
      (readAll (elements.map (ofNode nodes (.struct structId members))) >>= fun values =>
        .ok (.array name (.struct structId types) fixed values)) := by
  obtain ⟨schema, changed, nodeEq⟩ := exists_node_of_contentAt contentEq
  have admitted : ∀ element ∈ elements, schemaAt nodes element = some (.struct structId members) :=
    sound.admits found contentEq
  have structType : (Schema.struct structId members).type = .ok (.struct structId types) :=
    Schema.type_struct_eq_ok_iff.mpr ⟨types, typesEq, rfl⟩
  rw [ofNode_structArray nodeEq]
  apply read_structArray typesEq
  intro branch inside value read
  obtain ⟨element, isElement, rfl⟩ := List.mem_map.mp inside
  have foretold := foretold_ofNode sound distinct (admitted element isElement)
  rw [structType] at foretold
  obtain ⟨result, resultEq, typed⟩ := foretold.exists_ok
  rw [read] at resultEq
  cases resultEq
  exact typed

/-- A fresh tree of a structure that describes a type is read as a value of that
type. -/
theorem exists_read_ofSchema {schema : Schema} (tagged : schema.WellTagged)
    (distinct : schema.DistinctNames) {type : DataType} (typed : schema.type = .ok type) :
    ∃ fresh, (ofSchema schema).read = .ok fresh ∧ fresh.typeOf = type ∧
      (ofNode (alloc schema #[]).1 schema (alloc schema #[]).2).read = .ok fresh := by
  obtain ⟨root, isRoot, sound, found⟩ := exists_root_ofSchema tagged
  obtain rfl : (alloc schema #[]).2 = root := Option.some.inj isRoot
  have foretold := foretold_ofNode sound distinct found
  rw [typed] at foretold
  obtain ⟨fresh, read, sameType⟩ := foretold.exists_ok
  exact ⟨fresh, (read_eq_read_ofNode isRoot found).trans read, sameType, read⟩

/-- Nothing old is below a node that was added. -/
theorem not_below_of_fresh {before after : Array Node} (growth : Growth before after)
    {added old : Nat} (fresh : before.size ≤ added) (isOld : old < before.size) :
    ¬ Below after added old := by
  intro below
  rcases growth.below below with above | outside
  · rcases Relation.ReflTransGen.cases_head above with rfl | ⟨child, step, _⟩
    · omega
    · have inside := lt_size_of_mem_childrenAt step
      omega
  · omega

theorem forall₂_replicate {α β : Type} {relation : α → β → Prop} {items : List α} {item : β}
    (each : ∀ other ∈ items, relation other item) :
    List.Forall₂ relation items (List.replicate items.length item) := by
  induction items with
  | nil => exact .nil
  | cons first rest ih =>
      exact .cons (each first List.mem_cons_self)
        (ih fun other inside => each other (List.mem_cons_of_mem _ inside))

theorem readAll_map_congr {branch other : Nat → Branch} {ids : List Nat}
    (same : ∀ id ∈ ids, (branch id).read = (other id).read) :
    readAll (ids.map branch) = readAll (ids.map other) := by
  induction ids with
  | nil => rfl
  | cons id rest ih =>
      have first := same id List.mem_cons_self
      have later := ih fun id inside => same id (List.mem_cons_of_mem _ inside)
      simp only [List.map_cons, readAll, first, later]

/-- What is read below a child of a node stays as it is when only that node is
touched. -/
theorem read_ofNode_of_child (sound : Sound tree.nodes)
    (evolution : Evolution (· = id) tree after) {child : Nat}
    (inside : child ∈ childrenAt tree.nodes id) (schema : Schema) :
    (ofNode after.nodes schema child).read = (ofNode tree.nodes schema child).read := by
  apply read_ofNode_congr
  intro other below
  apply evolution.frame other (sound.lt_size_of_below below (sound.child_lt_size inside))
  rintro rfl
  exact sound.not_below_child inside below

/-- What is read below a node that was added does not depend on content that is
stored in an old node. -/
theorem read_ofNode_of_added {nodes : Array Node} {schemas : List Schema} {ids : List Nat}
    (allocated : Allocation tree.nodes nodes schemas ids) (old : id < tree.nodes.size)
    {added : Nat} (inside : added ∈ ids) (content : Content) (schema : Schema) :
    (ofNode ({ tree with nodes }.store id content).nodes schema added).read =
      (ofNode nodes schema added).read := by
  apply read_ofNode_congr
  intro other below
  rw [contentAt_store, if_neg]
  rintro rfl
  exact not_below_of_fresh allocated.growth (allocated.fresh added inside) old below

/-- An array of structures that was resized has its first elements, which are read
as before, and new ones, which are read as fresh trees of the structure are. -/
theorem exists_elements_of_resize (sound : Sound tree.nodes) {length : Nat} {ids : List Nat}
    (resized : tree.resize id length = .ok (after, ids)) {structId : Option String}
    {members : List (String × Schema)} {name : Option String} {fixed : Option Nat}
    (found : schemaAt tree.nodes id = some (.structArray structId members name fixed))
    (unionFree : (Schema.struct structId members).UnionFree) :
    ∃ current added, contentAt tree.nodes id = some (.structArray current) ∧
      ids = current.take length ++ added ∧ added.length = length - current.length ∧
      (∀ element ∈ current, (ofNode after.nodes (.struct structId members) element).read =
        (ofNode tree.nodes (.struct structId members) element).read) ∧
      ∀ element ∈ added, (ofNode after.nodes (.struct structId members) element).read =
        (ofNode (alloc (.struct structId members) #[]).1 (.struct structId members)
          (alloc (.struct structId members) #[]).2).read := by
  have evolution := evolution_resize sound resized
  obtain ⟨current, structId', members', name', fixed', contentEq, found', rfl, rfl⟩ :=
    resize_eq_ok_iff.mp resized
  rw [found] at found'
  cases found'
  have tagged : (Schema.struct structId members).WellTagged := (sound.tagged found).element
  have allocated := allocation_allocCopies tagged (length - (current.take length).length) sound
  refine ⟨current, _, contentEq, rfl, ?_, ?_, ?_⟩
  · have count := congrArg List.length allocated.schemas
    simp only [List.length_map, List.length_replicate, List.length_take] at count ⊢
    omega
  · intro element inside
    have isChild : element ∈ childrenAt tree.nodes id :=
      childrenAt_of_contentAt contentEq ▸ inside
    exact read_ofNode_of_child sound evolution isChild _
  · intro element inside
    rw [read_ofNode_of_added allocated (lt_size_of_schemaAt found) inside,
      ofNode_allocCopies tagged unionFree _ sound inside]

/-- A node that holds an array of structures is read from its elements. -/
theorem exists_elements_of_holds (sound : Sound tree.nodes) {part : Value}
    (holds : Holds tree.nodes id part) {structId : Option String}
    {members : List (String × Schema)} {name : Option String} {fixed : Option Nat}
    (found : schemaAt tree.nodes id = some (.structArray structId members name fixed))
    {current : List Nat} (contentEq : contentAt tree.nodes id = some (.structArray current)) :
    ∃ elements types, Schema.memberTypes members = .ok types ∧
      readAll (current.map (ofNode tree.nodes (.struct structId members))) = .ok elements ∧
      part = .array name (.struct structId types) fixed elements := by
  rcases holds with ⟨schema, found', distinct, read⟩
  rw [found] at found'
  cases found'
  cases typesEq : Schema.memberTypes members with
  | error fault =>
      obtain ⟨_, changed, nodeEq⟩ := exists_node_of_contentAt contentEq
      rw [ofNode_structArray nodeEq] at read
      simp [Branch.read, typesEq] at read
  | ok types =>
      rw [read_ofNode_structArray sound distinct.element typesEq found contentEq] at read
      obtain ⟨elements, elementsEq, same⟩ := Outcome.bind_eq_ok_iff.mp read
      cases same
      exact ⟨elements, types, rfl, elementsEq, rfl⟩

/-- An array of structures that was resized holds its first elements as they were,
and after them what fresh trees of the structure hold. -/
theorem holds_resize (sound : Sound tree.nodes) {length : Nat} {ids : List Nat}
    (resized : tree.resize id length = .ok (after, ids)) {part : Value}
    (holds : Holds tree.nodes id part) :
    ∃ structId members name fixed elements fresh,
      schemaAt tree.nodes id = some (.structArray structId members name fixed) ∧
      (ofSchema (.struct structId members)).read = .ok fresh ∧
      part = .array name fresh.typeOf fixed elements ∧
      Holds after.nodes id (.array name fresh.typeOf fixed
        (elements.take length ++ List.replicate (length - elements.length) fresh)) := by
  have evolution := evolution_resize sound resized
  obtain ⟨current, structId, members, name, fixed, contentEq, found, _, _⟩ :=
    resize_eq_ok_iff.mp resized
  obtain ⟨elements, types, typesEq, readElements, rfl⟩ :=
    exists_elements_of_holds sound holds found contentEq
  rcases holds with ⟨schema, found', distinct, _⟩
  rw [found] at found'
  cases found'
  have structType : (Schema.struct structId members).type = .ok (.struct structId types) :=
    Schema.type_struct_eq_ok_iff.mpr ⟨types, typesEq, rfl⟩
  obtain ⟨fresh, freshRead, freshType, freshBranch⟩ :=
    exists_read_ofSchema (sound.tagged found).element distinct.element structType
  obtain ⟨_, added, contentEq', rfl, count, keptRead, addedRead⟩ :=
    exists_elements_of_resize sound resized found (Schema.unionFree_of_type structType)
  rw [contentEq] at contentEq'
  cases contentEq'
  rw [← readAll_map_congr keptRead, readAll_map_eq_ok_iff] at readElements
  have sameLength : current.length = elements.length := readElements.length_eq
  have foundAfter := evolution.growth.schema found
  refine ⟨structId, members, name, fixed, elements, fresh, found, freshRead, by rw [freshType],
    _, foundAfter, distinct, ?_⟩
  rw [read_ofNode_structArray evolution.sound distinct.element typesEq foundAfter
    (contentAt_resize sound resized), freshType]
  have readAfter : readAll ((current.take length ++ added).map
      (ofNode after.nodes (.struct structId members))) =
        .ok (elements.take length ++ List.replicate (length - elements.length) fresh) := by
    rw [readAll_map_eq_ok_iff]
    apply List.rel_append
    · exact List.forall₂_take length readElements
    · rw [← sameLength, ← count]
      exact forall₂_replicate fun element inside => (addedRead element inside).trans freshBranch
  rw [readAfter]
  rfl

/-! ## Places in trees -/

variable {root : Nat} {value : Value}

theorem find?_eq (isRoot : tree.root = some root) (place : Path) :
    tree.find? place = place.foldlM tree.member? root := by
  simp [find?, isRoot]

/-- What a node at a path holds is a part of what the root holds. -/
theorem exists_part (sound : Sound tree.nodes) (isRoot : tree.root = some root)
    (holds : Holds tree.nodes root value) {place : Path} (found : tree.find? place = some id) :
    ∃ part, value.get? place = some part ∧ Holds tree.nodes id part := by
  have related := rel_foldlM_member? sound holds place
  rw [← find?_eq isRoot, found] at related
  revert related
  cases value.get? place <;> rintro ⟨⟩
  exact ⟨_, rfl, ‹_›⟩

/-- When the node at a place is touched and comes to hold another value, the value
of the tree has that value at that place. -/
theorem exists_set?_read (sound : Sound tree.nodes) (isRoot : tree.root = some root)
    (holds : Holds tree.nodes root value) {place : Path} (found : tree.find? place = some id)
    (evolution : Evolution (· = id) tree after) {new : Value}
    (renewed : Holds after.nodes id new) :
    ∃ updated, value.set? new place = some updated ∧ after.read = .ok updated := by
  rw [find?_eq isRoot] at found
  obtain ⟨updated, isUpdated, schema, schemaEq, _, read⟩ :=
    exists_set? sound evolution.below renewed holds found
  refine ⟨updated, isUpdated, ?_⟩
  rw [read_eq_read_ofNode (evolution.root.trans isRoot) schemaEq]
  exact read

/-- Content stored in a node that is not below the root is not seen. -/
theorem branch?_store (isRoot : tree.root = some root) {schema : Schema}
    (found : schemaAt tree.nodes root = some schema) (away : ¬ Below tree.nodes root id)
    (content : Content) : (tree.store id content).branch? = tree.branch? := by
  have isRootAfter : (tree.store id content).root = some root := isRoot
  have foundAfter : schemaAt (tree.store id content).nodes root = some schema :=
    (schemaAt_store ..).trans found
  rw [branch?_eq_some isRoot found, branch?_eq_some isRootAfter foundAfter]
  congr 1
  apply ofNode_congr
  intro other below
  unfold store
  rw [Array.getElem?_modify, if_neg]
  rintro rfl
  exact away below

/-- What is out of reach of the root stays so, and setting it is not seen. -/
theorem unreachable_of_sound (sound : Sound tree.nodes) (isRoot : tree.root = some root)
    {schema : Schema} (found : schemaAt tree.nodes root = some schema)
    (old : id < tree.nodes.size) (away : ¬ Below tree.nodes root id) :
    (∀ datum after, tree.putScalar id datum = .ok after →
      after.read = tree.read ∧ after.changedPaths = tree.changedPaths) ∧
    (∀ array after, tree.putScalarArray id array = .ok after →
      after.read = tree.read ∧ after.changedPaths = tree.changedPaths) ∧
    ∀ edits, (tree.edited edits).root = some root ∧ ¬ Below (tree.edited edits).nodes root id := by
  have unseen : ∀ content, (tree.store id content).read = tree.read ∧
      (tree.store id content).changedPaths = tree.changedPaths := by
    intro content
    have same := branch?_store isRoot found away content
    constructor
    · rw [Tree.read, same, Tree.read]
    · rw [Tree.changedPaths, same, Tree.changedPaths]
  constructor
  · intro datum after put
    obtain ⟨_, _, _, rfl⟩ := putScalar_eq_ok_iff.mp put
    exact unseen _
  constructor
  · intro array after put
    obtain ⟨_, _, _, _, rfl⟩ := putScalarArray_eq_ok_iff.mp put
    exact unseen _
  · intro edits
    have evolution := evolution_edited sound edits
    constructor
    · exact evolution.root.trans isRoot
    · intro below
      rcases evolution.growth.below below with before | new
      · exact away before
      · exact absurd old (Nat.not_lt.mpr new)

/-- A sound tree stands for the value that its root holds. -/
theorem Simulates.of_holds (sound : Sound tree.nodes) (isRoot : tree.root = some root)
    (holds : Holds tree.nodes root value) : tree.Simulates value where
  read := by
    have read := read_downFrom holds
    rwa [downFrom, ← isRoot] at read
  find := by
    intro place
    have related := rel_foldlM_member? sound holds place
    rw [← find?_eq isRoot] at related
    revert related
    cases tree.find? place <;> cases value.get? place <;> rintro ⟨⟩
    · exact .none
    · exact .some (read_downFrom ‹_›)
  putScalar := by
    intro place id datum after found put
    exact exists_set?_read sound isRoot holds found (evolution_putScalar sound put)
      (holds_putScalar sound put)
  putScalarArray := by
    intro place id tag items array after found made put
    obtain ⟨part, isPart, holdsPart⟩ := exists_part sound isRoot holds found
    obtain ⟨name, kind, length, elements, rfl, kindEq, renewed⟩ :=
      holds_putScalarArray sound made put holdsPart
    obtain ⟨updated, isUpdated, read⟩ := exists_set?_read sound isRoot holds found
      (evolution_putScalarArray sound made put) renewed
    exact ⟨name, kind, length, elements, updated, isPart, kindEq, isUpdated, read⟩
  resize := by
    intro place id length after ids found resized
    obtain ⟨part, isPart, holdsPart⟩ := exists_part sound isRoot holds found
    obtain ⟨structId, members, name, fixed, elements, fresh, foundArray, freshRead, rfl, renewed⟩ :=
      holds_resize sound resized holdsPart
    obtain ⟨updated, isUpdated, read⟩ := exists_set?_read sound isRoot holds found
      (evolution_resize sound resized) renewed
    exact ⟨structId, members, name, fixed, elements, fresh, updated, foundArray, freshRead, isPart,
      isUpdated, read⟩
  unreachable := by
    intro other id isRoot' old away
    rw [isRoot] at isRoot'
    cases isRoot'
    rcases holds with ⟨schema, found, _, _⟩
    exact unreachable_of_sound sound isRoot found old away

/-- A tree without unions stands for the value that is read from it, whatever edits
it went through. -/
theorem simulates_edited {schema : Schema} (tagged : schema.WellTagged)
    (distinct : schema.DistinctNames) (unionFree : schema.UnionFree) (edits : List Edit) :
    ∃ value, ((ofSchema schema).edited edits).Simulates value := by
  obtain ⟨root, isRoot, sound, found⟩ := exists_root_edited tagged edits
  obtain ⟨type, typed, _⟩ := Schema.exists_type tagged unionFree none
  have foretold := foretold_ofNode sound distinct found
  rw [typed] at foretold
  obtain ⟨value, read, _⟩ := foretold.exists_ok
  exact ⟨value, Simulates.of_holds sound isRoot ⟨schema, found, distinct, read⟩⟩

/-- An array of points gained two points and lost one.  Setting the level of the tree
sets it in the value, another resize extends the array by a fresh point, and setting
the coordinate of the lost point is not seen. -/
theorem simulates_edited_points :
    let point := [("x", Schema.scalar (.scalar .int))]
    let schema := Schema.struct none
      [("points", .structArray (some "Point") point none none),
        ("level", .scalar (.scalar .double))]
    let tree := (ofSchema schema).edited [.resize 0 2, .resize 0 1]
    schema.WellTagged ∧ schema.DistinctNames ∧ schema.UnionFree ∧ ∃ value, tree.read = .ok value ∧
      (∃ after updated, tree.putScalar 1 (.zeroOf .double) = .ok after ∧
        value.set? (.scalar (Datum.zeroOf .double).scalar) ["level"] = some updated ∧
        after.read = .ok updated) ∧
      (∃ after ids updated, tree.resize 0 2 = .ok (after, ids) ∧ after.read = .ok updated) ∧
      ∃ after, tree.putScalar 5 (.zeroOf .int) = .ok after ∧ after.read = .ok value ∧
        after.changedPaths = tree.changedPaths := by
  intro point schema tree
  have tagged : schema.WellTagged := by
    simp [schema, point, Schema.WellTagged, Schema.Everywhere, Schema.MembersEverywhere,
      Schema.HasOwnTag, Tag.isScalar]
  have distinct : schema.DistinctNames := by
    simp [schema, point, Schema.DistinctNames, Schema.Everywhere, Schema.MembersEverywhere,
      Schema.HasDistinctMembers]
  have unionFree : schema.UnionFree := by
    simp [schema, point, Schema.UnionFree, Schema.Everywhere, Schema.MembersEverywhere,
      Schema.IsNoUnion]
  obtain ⟨value, simulates⟩ := simulates_edited tagged distinct unionFree
    [.resize 0 2, .resize 0 1]
  have isRoot : tree.root = some 2 := by decide +kernel
  have level : tree.find? ["level"] = some 1 := by decide +kernel
  have points : tree.find? ["points"] = some 0 := by decide +kernel
  have put : tree.putScalar 1 (.zeroOf .double) = .ok _ := putScalar_eq_ok_iff.mpr
    ⟨.zeroOf .double, by decide +kernel, rfl, rfl⟩
  have resized : tree.resize 0 2 = .ok (_, _) := resize_eq_ok_iff.mpr
    ⟨[4], some "Point", point, none, none, by decide +kernel, by decide +kernel, rfl, rfl⟩
  have lost : tree.putScalar 5 (.zeroOf .int) = .ok _ := putScalar_eq_ok_iff.mpr
    ⟨.zeroOf .int, by decide +kernel, rfl, rfl⟩
  -- The lost coordinate has one parent, and that has none.
  have away : ¬ Below tree.nodes 2 5 := by
    intro below
    have parents : ∀ parent < 7, (5 ∈ childrenAt tree.nodes parent → parent = 6) ∧
        6 ∉ childrenAt tree.nodes parent := by decide +kernel
    have bounded : ∀ {parent child}, child ∈ childrenAt tree.nodes parent → parent < 7 :=
      fun inside => lt_size_of_mem_childrenAt inside
    rcases Relation.ReflTransGen.cases_tail below with same | ⟨parent, above, step⟩
    · cases same
    · obtain rfl := (parents parent (bounded step)).1 step
      rcases Relation.ReflTransGen.cases_tail above with same | ⟨other, _, step⟩
      · cases same
      · exact (parents other (bounded step)).2 step
  obtain ⟨updated, isUpdated, read⟩ := simulates.putScalar level put
  obtain ⟨_, _, _, _, _, _, extended, _, _, _, _, readExtended⟩ := simulates.resize points resized
  obtain ⟨sameRead, samePaths⟩ :=
    (simulates.unreachable isRoot (by decide +kernel) away).1 _ _ lost
  exact ⟨tagged, distinct, unionFree, value, simulates.read,
    ⟨_, updated, put, isUpdated, read⟩, ⟨_, _, extended, resized, readExtended⟩,
    ⟨_, lost, sameRead.trans simulates.read, samePaths⟩⟩

end Tree

end ProcessImage.Wire
