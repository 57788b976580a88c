import ProcessImage.Proofs.Wire.Arena.Growth

/-!
# What setters do to a tree

Every setter takes a sound tree to a sound tree that has grown and has the same
root: an `Evolution`.  An evolution names the nodes that it may have touched,
and all other old nodes hold what they held.

Each setter of a node is a special case of one step: nodes are allocated, and
content that takes over only those nodes and former children is stored.
-/

namespace ProcessImage.Wire

open Arena

/-- A tree comes after another, and only touched nodes have other content. -/
structure Evolution (touched : Nat → Prop) (before after : Tree) : Prop where
  sound : Sound after.nodes
  growth : Growth before.nodes after.nodes
  root : after.root = before.root
  frame : ∀ id < before.nodes.size, ¬ touched id →
    contentAt after.nodes id = contentAt before.nodes id

namespace Evolution

variable {touched more : Nat → Prop} {before middle after : Tree}

theorem refl (touched : Nat → Prop) (sound : Sound before.nodes) :
    Evolution touched before before where
  sound := sound
  growth := Growth.refl _
  root := rfl
  frame _ _ _ := rfl

theorem mono (evolution : Evolution touched before after)
    (covered : ∀ id < before.nodes.size, touched id → more id) : Evolution more before after where
  sound := evolution.sound
  growth := evolution.growth
  root := evolution.root
  frame id old untouched := evolution.frame id old fun inside => untouched (covered id old inside)

theorem below {id : Nat} (evolution : Evolution (· = id) before after) :
    Evolution (Below before.nodes id) before after :=
  evolution.mono fun _ _ same => same ▸ Relation.ReflTransGen.refl

/-- One evolution after another is an evolution that touches what either
touches. -/
theorem trans (first : Evolution touched before middle) (second : Evolution more middle after) :
    Evolution (fun id => touched id ∨ more id) before after where
  sound := second.sound
  growth := first.growth.trans second.growth
  root := second.root.trans first.root
  frame id old untouched := by
    have stillOld := Nat.lt_of_lt_of_le old first.growth.size_le
    rw [second.frame id stillOld fun inside => untouched (Or.inr inside)]
    exact first.frame id old fun inside => untouched (Or.inl inside)

/-- Trees whose nodes differ in their marks only evolve into each other. -/
theorem of_marks (sound : Sound before.nodes)
    (schemas : schemaAt after.nodes = schemaAt before.nodes)
    (contents : contentAt after.nodes = contentAt before.nodes)
    (size : after.nodes.size = before.nodes.size) (root : after.root = before.root) :
    Evolution (fun _ => False) before after := by
  have growth : Growth before.nodes after.nodes := by
    constructor
    case size_le => exact Nat.le_of_eq size.symm
    case schema =>
      intro id schema found
      rw [schemas]
      exact found
    case children =>
      intro parent child inside
      rw [childrenAt_congr (congrFun contents parent)] at inside
      exact Or.inl inside
  constructor
  case sound => exact sound.congr schemas contents
  case growth => exact growth
  case root => exact root
  case frame =>
    intro id _ _
    rw [contents]

/-- Allocating nodes and storing content in an old node is an evolution when the
content takes over only former children and allocated nodes. -/
theorem of_allocation {tree : Tree} {nodes : Array Node} {schemas : List Schema} {ids : List Nat}
    (allocated : Allocation tree.nodes nodes schemas ids) {target : Nat} {schema : Schema}
    (found : schemaAt tree.nodes target = some schema) {content : Content}
    (admitted : schema.Admits (schemaAt nodes) content) (nodup : content.children.Nodup)
    (children : ∀ child ∈ content.children,
      child ∈ childrenAt tree.nodes target ∨ child ∈ ids) :
    Evolution (· = target) tree ({ tree with nodes }.store target content) := by
  have kept : ∀ id < tree.nodes.size, contentAt nodes id = contentAt tree.nodes id := by
    intro id old
    unfold contentAt
    rw [allocated.same id old]
  have keptChildren : childrenAt nodes target = childrenAt tree.nodes target :=
    childrenAt_congr (kept target (lt_size_of_schemaAt found))
  have foundAfter : schemaAt nodes target = some schema := allocated.growth.schema found
  let allocatedTree : Tree := { tree with nodes }
  have sound : Sound allocatedTree.nodes := allocated.sound
  have growth : Growth tree.nodes allocatedTree.nodes := allocated.growth
  constructor
  case sound =>
    apply sound_store sound foundAfter admitted nodup
    intro child inside
    rcases children child inside with own | fresh
    · exact Or.inl (keptChildren ▸ own)
    · exact Or.inr (allocated.orphan child fresh)
  case growth =>
    apply growth.store foundAfter
    intro child inside
    rcases children child inside with own | fresh
    · exact Or.inl own
    · exact Or.inr (allocated.fresh child fresh)
  case root => rfl
  case frame =>
    intro id old other
    rw [contentAt_store, if_neg fun same => other same.symm]
    exact kept id old

/-- Storing content without any new nodes. -/
theorem of_store {tree : Tree} (sound : Sound tree.nodes) {target : Nat} {schema : Schema}
    (found : schemaAt tree.nodes target = some schema) {content : Content}
    (admitted : schema.Admits (schemaAt tree.nodes) content) (leaf : content.children = []) :
    Evolution (· = target) tree (tree.store target content) := by
  apply of_allocation (Allocation.nil sound) found admitted
  · simp [leaf]
  · simp [leaf]

end Evolution

/-! ## What successful setters did -/

/-- Data make an array exactly when they are all elements of its tag. -/
theorem DatumArray.ofItems_eq_ok_iff {tag : Tag} {items : List Datum} {array : DatumArray} :
    ofItems tag items = .ok array ↔
      array = ⟨tag, items⟩ ∧ tag.isScalarArray = true ∧
        ∀ item ∈ items, tag.arrayElement? = some item.element := by
  unfold ofItems Tag.isScalarArray
  cases tag.arrayElement? with
  | none => simp
  | some element =>
      cases found : items.find? (fun item => item.element ≠ element) with
      | some item =>
          have other := List.find?_some found
          have inside := List.mem_of_find?_eq_some found
          simp only [found, reduceCtorEq, Option.some.injEq, false_iff, not_and]
          exact fun _ _ uniform => by simp [uniform item inside] at other
      | none =>
          have uniform : ∀ item ∈ items, element = item.element := by
            intro item inside
            have same := List.find?_eq_none.mp found item inside
            simp only [decide_eq_true_eq, Decidable.not_not] at same
            exact same.symm
          simp only [found, Except.ok.injEq, Option.some.injEq, Option.isSome_some, true_and]
          exact ⟨fun same => ⟨same.symm, uniform⟩, fun made => made.1.symm⟩

/-- Both ways to look a member up find the same one. -/
theorem exists_member_of_findIdx? {members : List (String × Schema)} {name : String}
    {position : Nat} {schema : Schema}
    (place : members.findIdx? (·.1 == name) = some position)
    (found : members.lookup name = some schema) :
    ∃ member ∈ members[position]?, member.2 = schema := by
  induction members generalizing position with
  | nil => cases found
  | cons member rest ih =>
      rcases member with ⟨first, inner⟩
      by_cases same : name = first
      · subst same
        simp only [List.findIdx?_cons, beq_self_eq_true, if_true, Option.some.injEq] at place
        simp only [List.lookup_cons, beq_self_eq_true, Option.some.injEq] at found
        exact ⟨(name, inner), by simp [← place], found⟩
      · have other : ¬ first = name := fun equal => same equal.symm
        simp only [List.findIdx?_cons, beq_eq_false_iff_ne.mpr other] at place
        simp only [List.lookup_cons, beq_eq_false_iff_ne.mpr same] at found
        obtain ⟨before, isBefore, rfl⟩ := Option.map_eq_some_iff.mp place
        obtain ⟨member, memberEq, sameSchema⟩ := ih isBefore found
        exact ⟨member, by simpa using memberEq, sameSchema⟩

namespace Tree

variable {tree after : Tree} {id : Nat}

theorem putScalar_eq_ok_iff {datum : Datum} :
    tree.putScalar id datum = .ok after ↔
      ∃ current, contentAt tree.nodes id = some (.scalar current) ∧
        current.element = datum.element ∧ tree.store id (.scalar datum) = after := by
  unfold putScalar contentAt Tree.node node?
  cases tree.nodes[id]? with
  | none => simp
  | some node =>
      rcases node with ⟨schema, content, changed⟩
      cases content with
      | scalar current => by_cases same : current.element = datum.element <;> simp [same]
      | _ => simp

theorem putScalarArray_eq_ok_iff {items : DatumArray} :
    tree.putScalarArray id items = .ok after ↔
      ∃ name length, schemaAt tree.nodes id = some (.scalarArray items.tag name length) ∧
        (∀ count ∈ length, items.items.length = count) ∧
        tree.store id (.scalarArray items) = after := by
  unfold putScalarArray schemaAt Tree.node node?
  cases tree.nodes[id]? with
  | none => simp
  | some node =>
      rcases node with ⟨schema, content, changed⟩
      cases schema with
      | scalarArray tag name length =>
          by_cases same : tag = items.tag
          · subst same
            constructor
            · intro stored
              cases length with
              | none => exact ⟨name, none, rfl, by simp, by simpa using stored⟩
              | some count =>
                  by_cases fits : items.items.length = count
                  · exact ⟨name, some count, rfl, by simp [fits], by simpa [fits] using stored⟩
                  · simp [fits] at stored
            · rintro ⟨_, _, ⟨⟩, fits, rfl⟩
              cases length with
              | none => simp
              | some count => simp [fits count rfl]
          · simp [same]
      | _ => simp

/-- A resized array keeps its first elements and gains copies of the structure
of its elements. -/
theorem resize_eq_ok_iff {length : Nat} {ids : List Nat} :
    tree.resize id length = .ok (after, ids) ↔
      ∃ current structId members name fixed,
        contentAt tree.nodes id = some (.structArray current) ∧
        schemaAt tree.nodes id = some (.structArray structId members name fixed) ∧
        current.take length ++ (allocCopies (.struct structId members)
          (length - (current.take length).length) tree.nodes).2 = ids ∧
        ({ tree with nodes := (allocCopies (.struct structId members)
          (length - (current.take length).length) tree.nodes).1 }.store id (.structArray ids)) =
          after := by
  unfold resize contentAt schemaAt Tree.node node?
  cases tree.nodes[id]? with
  | none => simp
  | some node =>
      rcases node with ⟨schema, content, changed⟩
      cases content with
      | structArray current =>
          cases schema with
          | structArray structId members name fixed =>
              constructor
              · intro resized
                cases resized
                exact ⟨_, _, _, _, _, rfl, rfl, rfl, rfl⟩
              · rintro ⟨_, _, _, _, _, ⟨⟩, ⟨⟩, rfl, rfl⟩
                rfl
          | _ => simp
      | _ => simp

theorem select_eq_ok_iff {name : String} {child : Nat} :
    tree.select id name = .ok (after, child) ↔
      ∃ unionId members position schema,
        schemaAt tree.nodes id = some (.union unionId members) ∧
        members.findIdx? (·.1 == name) = some position ∧ members.lookup name = some schema ∧
        (alloc schema tree.nodes).2 = child ∧
        ({ tree with nodes := (alloc schema tree.nodes).1 }.store id
          (.union (some (position, child)))) = after := by
  unfold select schemaAt Tree.node node?
  cases tree.nodes[id]? with
  | none => simp
  | some node =>
      rcases node with ⟨schema, content, changed⟩
      cases schema with
      | union unionId members =>
          cases position : members.findIdx? (·.1 == name) with
          | none => simp [position]
          | some place =>
              cases found : members.lookup name with
              | none => simp [position, found]
              | some inner =>
                  constructor
                  · intro selected
                    simp [position, found] at selected
                    exact ⟨_, _, _, _, rfl, position, found, selected.2, selected.2 ▸ selected.1⟩
                  · rintro ⟨_, _, _, _, ⟨⟩, samePlace, sameInner, rfl, rfl⟩
                    rw [position] at samePlace
                    rw [found] at sameInner
                    cases samePlace
                    cases sameInner
                    simp [position, found]
      | _ => simp

/-! ## Setters are evolutions -/

theorem evolution_putScalar (sound : Sound tree.nodes) {datum : Datum}
    (put : tree.putScalar id datum = .ok after) : Evolution (· = id) tree after := by
  obtain ⟨current, contentEq, same, rfl⟩ := putScalar_eq_ok_iff.mp put
  have found := sound.schemaAt_of_scalar contentEq
  have admitted : (Schema.scalar current.tag).Admits (schemaAt tree.nodes) (.scalar datum) := by
    simp [Schema.Admits, Datum.tag, same]
  exact Evolution.of_store sound found admitted rfl

theorem evolution_putScalarArray (sound : Sound tree.nodes) {tag : Tag} {items : List Datum}
    {array : DatumArray} (made : DatumArray.ofItems tag items = .ok array)
    (put : tree.putScalarArray id array = .ok after) : Evolution (· = id) tree after := by
  obtain ⟨name, length, found, fits, rfl⟩ := putScalarArray_eq_ok_iff.mp put
  obtain ⟨rfl, _, uniform⟩ := DatumArray.ofItems_eq_ok_iff.mp made
  exact Evolution.of_store sound found ⟨rfl, uniform, fits⟩ rfl

theorem evolution_resize (sound : Sound tree.nodes) {length : Nat} {ids : List Nat}
    (resized : tree.resize id length = .ok (after, ids)) : Evolution (· = id) tree after := by
  obtain ⟨current, structId, members, name, fixed, contentEq, found, same, rfl⟩ :=
    resize_eq_ok_iff.mp resized
  have tagged := Schema.Everywhere.element (sound.tagged found)
  have allocated := allocation_allocCopies tagged (length - (current.take length).length) sound
  have children : childrenAt tree.nodes id = current := childrenAt_of_contentAt contentEq
  have admitted := sound.admits found contentEq
  apply Evolution.of_allocation allocated found
  case admitted =>
    intro element inside
    rcases List.mem_append.mp (same ▸ inside) with kept | fresh
    · exact allocated.growth.schema (admitted element (List.mem_of_mem_take kept))
    · exact allocated.schemaAt_of_copy fresh
  case nodup =>
    rw [Content.children, ← same, List.nodup_append]
    refine ⟨(children ▸ sound.nodup id).sublist (List.take_sublist ..), allocated.nodup, ?_⟩
    intro kept keptMem fresh freshMem equal
    have old := lt_size_of_schemaAt (admitted kept (List.mem_of_mem_take keptMem))
    have new := allocated.fresh fresh freshMem
    omega
  case children =>
    intro child inside
    rcases List.mem_append.mp (same ▸ inside) with kept | fresh
    · exact Or.inl (children ▸ List.mem_of_mem_take kept)
    · exact Or.inr fresh

theorem evolution_select (sound : Sound tree.nodes) {name : String} {child : Nat}
    (selected : tree.select id name = .ok (after, child)) : Evolution (· = id) tree after := by
  obtain ⟨unionId, members, position, schema, found, place, inner, rfl, rfl⟩ :=
    select_eq_ok_iff.mp selected
  obtain ⟨member, memberEq, rfl⟩ := exists_member_of_findIdx? place inner
  have tagged := Schema.Everywhere.members_of_union (sound.tagged found) member
    (List.mem_of_getElem? memberEq)
  have allocated := allocation_alloc tagged sound
  apply Evolution.of_allocation allocated found
  case admitted =>
    rintro _ ⟨⟩
    exact ⟨member, memberEq, by simpa using allocated.schemas⟩
  case nodup => simp [Content.children]
  case children => simp [Content.children]

theorem schemaAt_mark (tree : Tree) (id : Nat) :
    schemaAt (tree.mark id).nodes = schemaAt tree.nodes := by
  funext other
  unfold schemaAt mark
  rw [Array.getElem?_modify]
  split <;> simp [Option.map_map, Function.comp_def]

theorem contentAt_mark (tree : Tree) (id : Nat) :
    contentAt (tree.mark id).nodes = contentAt tree.nodes := by
  funext other
  unfold contentAt mark
  rw [Array.getElem?_modify]
  split <;> simp [Option.map_map, Function.comp_def]

theorem evolution_mark (sound : Sound tree.nodes) (id : Nat) :
    Evolution (fun _ => False) tree (tree.mark id) :=
  Evolution.of_marks sound (schemaAt_mark tree id) (contentAt_mark tree id)
    (by simp [mark]) rfl

theorem evolution_markRoot (sound : Sound tree.nodes) :
    Evolution (fun _ => False) tree tree.markRoot := by
  unfold markRoot
  split
  · exact evolution_mark sound _
  · exact Evolution.refl _ sound

theorem evolution_unmarkAll (sound : Sound tree.nodes) :
    Evolution (fun _ => False) tree tree.unmarkAll := by
  apply Evolution.of_marks sound
  · funext id
    simp [schemaAt, unmarkAll, Option.map_map, Function.comp_def]
  · funext id
    simp [contentAt, unmarkAll, Option.map_map, Function.comp_def]
  · simp [unmarkAll]
  · rfl

end Tree

end ProcessImage.Wire
