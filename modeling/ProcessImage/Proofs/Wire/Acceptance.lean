import ProcessImage.Proofs.Wire.Matching

/-!
# Accepted values

A tree takes every value that matches its schema, whatever was written into it
before: scalars and arrays of scalars are stored, the fields of a structure go to
its members one by one, and an array of structures is given as many elements as
the value has before these are written.

Together with `Tree.matches_of_assign` this says which values a tree takes:
`Tree.assign_accepts_iff`.
-/

namespace ProcessImage.Wire

open Arena

/-- A scalar travels with its characters as bytes. -/
theorem Datum.scalar_ofScalar_eq_charsAsBytes (datum : Scalar) :
    (Datum.ofScalar datum).scalar = datum.charsAsBytes := by
  cases datum with
  | integer kind number member => cases kind <;> rfl
  | _ => rfl

namespace Tree

variable {tree : Tree} {id : Nat}

/-! ## What writing does -/

/-- A scalar is stored in a node of its tag. -/
theorem assign_scalar {datum : Scalar} (sound : Sound tree.nodes)
    (found : schemaAt tree.nodes id = some (.scalar (.ofKind datum.kind))) :
    tree.assign id (.scalar datum) = (tree.store id (.scalar (.ofScalar datum)), .ok ()) := by
  obtain ⟨current, changed, nodeEq, tagEq⟩ := sound.node_scalar found
  have sameTag : (Datum.ofScalar datum).tag = .ofKind datum.kind := by
    simp [Datum.tag, Tag.ofKind]
  have sameElement : current.element = (Datum.ofScalar datum).element :=
    Tag.scalar.inj (tagEq.trans sameTag.symm)
  have put : tree.putScalar id (.ofScalar datum) =
      .ok (tree.store id (.scalar (.ofScalar datum))) :=
    putScalar_eq_ok_iff.mpr ⟨current, contentAt_of_node nodeEq, sameElement, rfl⟩
  simp [assign, node?, nodeEq, assignScalar, sameTag, put, settle]

/-- Elements of one kind give data of that kind. -/
theorem exists_dataOfKind {kind : Kind} {elements : List Value}
    (typed : ∀ value ∈ elements, value.typeOf = .scalar kind) :
    ∃ data, dataOfKind kind elements = .ok data ∧
      data.map (fun datum => Value.scalar datum.scalar) = elements.map Value.charsAsBytes ∧
      ∀ datum ∈ data, datum.element = .ofKind kind := by
  induction elements with
  | nil => exact ⟨[], rfl, rfl, by simp⟩
  | cons value rest ih =>
      obtain ⟨data, dataEq, values, elements⟩ :=
        ih fun value inside => typed value (List.mem_cons_of_mem _ inside)
      have isScalar := typed value List.mem_cons_self
      cases value with
      | scalar datum =>
          have sameKind : datum.kind = kind := DataType.scalar.inj isScalar
          refine ⟨Datum.ofScalar datum :: data, ?_, ?_, ?_⟩
          · simp [dataOfKind, sameKind, dataEq, Except.map]
          · simp [values, Value.charsAsBytes, Datum.scalar_ofScalar_eq_charsAsBytes]
          · simpa [sameKind] using elements
      | _ => cases isScalar

/-- Scalars of the kind of an array are stored in it, as many as it may have. -/
theorem exists_assign_scalarArray {kind : Kind} {name : Option String} {fixed : Option Nat}
    {elements : List Value} (sound : Sound tree.nodes)
    (found : schemaAt tree.nodes id = some (.scalarArray (.arrayOfKind kind) name fixed))
    (typed : ∀ value ∈ elements, value.typeOf = .scalar kind)
    (fits : ∀ count ∈ fixed, elements.length = count) (arrayName : Option String)
    (length : Option Nat) :
    ∃ data, tree.assign id (.array arrayName (.scalar kind) length elements) =
        (tree.store id (.scalarArray ⟨.arrayOfKind kind, data⟩), .ok ()) ∧
      data.map (fun datum => Value.scalar datum.scalar) = elements.map Value.charsAsBytes := by
  obtain ⟨current, changed, nodeEq, _⟩ := sound.node_scalarArray found
  obtain ⟨data, dataEq, values, uniform⟩ := exists_dataOfKind typed
  have sameLength : data.length = elements.length := by simpa using congrArg List.length values
  have made : DatumArray.ofItems (.arrayOfKind kind) data = .ok ⟨.arrayOfKind kind, data⟩ :=
    DatumArray.ofItems_eq_ok_iff.mpr
      ⟨rfl, rfl, fun datum inside => by rw [uniform datum inside]; rfl⟩
  have put : tree.putScalarArray id ⟨.arrayOfKind kind, data⟩ =
      .ok (tree.store id (.scalarArray ⟨.arrayOfKind kind, data⟩)) :=
    putScalarArray_eq_ok_iff.mpr
      ⟨name, fixed, found, fun count isCount => sameLength.trans (fits count isCount), rfl⟩
  refine ⟨data, ?_, values⟩
  simp [assign, node?, nodeEq, assignScalars, itemsFor, DataType.scalarKind?, dataEq, made, put,
    settle]

/-- Fields are written into the members of their names one by one. -/
theorem exists_assign_struct {structId : Option String} {members : List (String × Schema)}
    {fields : List (String × Value)} (sound : Sound tree.nodes)
    (found : schemaAt tree.nodes id = some (.struct structId members))
    (names : members.map (·.1) = fields.map (·.1)) (name : Option String) :
    ∃ children, contentAt tree.nodes id = some (.struct children) ∧
      (children.map (schemaAt tree.nodes) = members.map fun member => some member.2) ∧
      tree.assign id (.struct name fields) = tree.assignElements children (fields.map (·.2)) := by
  obtain ⟨children, changed, nodeEq, schemas⟩ := sound.node_struct found
  have complete := length_of_schemas schemas
  have membersEq := members_of_node nodeEq
  have firsts : (tree.members id).map (·.1) = fields.map (·.1) := by
    rw [membersEq, List.map_fst_zip (by simp [complete]), names]
  have seconds : (tree.members id).map (·.2) = children := by
    rw [membersEq, List.map_snd_zip (by simp [complete])]
  refine ⟨children, contentAt_of_node nodeEq, schemas, ?_⟩
  simp only [assign, node?, nodeEq, firsts, if_true, seconds, assignFields_eq_assignElements]

/-- An array of structures is given its number of elements, and these are written
one by one. -/
theorem exists_assign_structArray {structId name : Option String}
    {members : List (String × Schema)} {fixed : Option Nat} {elements : List Value}
    (sound : Sound tree.nodes)
    (found : schemaAt tree.nodes id = some (.structArray structId members name fixed))
    (fits : ∀ count ∈ fixed, elements.length = count) (arrayName : Option String)
    (element : DataType) (length : Option Nat) :
    ∃ resized ids, tree.resize id elements.length = .ok (resized, ids) ∧
      ids.length = elements.length ∧ contentAt resized.nodes id = some (.structArray ids) ∧
      (ids.map (schemaAt resized.nodes) = ids.map fun _ => some (.struct structId members)) ∧
      tree.assign id (.array arrayName element length elements) =
        resized.assignElements ids elements := by
  obtain ⟨current, changed, nodeEq, _⟩ := sound.node_structArray found
  obtain ⟨resized, ids, resizedEq, lengthEq, contentEq, schemas⟩ :=
    exists_resize sound found elements.length
  have fitted : tree.fitLength id fixed elements.length = .ok (resized, ids) := by
    unfold fitLength
    cases fixed with
    | none => exact resizedEq
    | some count => simp only [fits count rfl, if_true, ← resizedEq]
  refine ⟨resized, ids, resizedEq, lengthEq, contentEq, schemas, ?_⟩
  simp only [assign, node?, nodeEq, fitted]

end Tree

/-! ## Which values are accepted -/

/-- Whether a value can be written below every sound node of a schema. -/
def Accepts (schema : Schema) (value : Value) : Prop :=
  ∀ (tree : Tree) (id : Nat), Sound tree.nodes → schemaAt tree.nodes id = some schema →
    ∃ after, tree.assign id value = (after, .ok ())

/-- Values are accepted below nodes one after the other. -/
theorem exists_assignElements {schemas : List Schema} {values : List Value}
    (accept : List.Forall₂ Accepts schemas values) {tree : Tree} (sound : Sound tree.nodes)
    {ids : List Nat} (found : ids.map (schemaAt tree.nodes) = schemas.map some) :
    ∃ after, tree.assignElements ids values = (after, .ok ()) := by
  induction accept generalizing tree ids with
  | nil =>
      obtain rfl := List.map_eq_nil_iff.mp found
      exact ⟨tree, rfl⟩
  | @cons schema value schemas values first _ ih =>
      cases ids with
      | nil => cases found
      | cons id others =>
          simp only [List.map_cons, List.cons.injEq] at found
          obtain ⟨middle, written⟩ := first tree id sound found.1
          have evolution := Tree.evolution_assign value sound id
          rw [written] at evolution
          obtain ⟨after, writtenAll⟩ :=
            ih evolution.sound (evolution.growth.map_schemaAt found.2)
          exact ⟨after, by simp only [Tree.assignElements, written, writtenAll]⟩

namespace Schema

theorem names_of_membersMatch {members : List (String × Schema)} {fields : List (String × Value)}
    (fits : MembersMatch members fields) : members.map (·.1) = fields.map (·.1) := by
  induction members generalizing fields with
  | nil =>
      cases fields with
      | nil => rfl
      | cons field rest => exact fits.elim
  | cons member rest ih =>
      cases fields with
      | nil => exact fits.elim
      | cons field others => rw [List.map_cons, List.map_cons, fits.1, ih fits.2.2]

theorem exists_member_of_membersMatch {members : List (String × Schema)}
    {fields : List (String × Value)} (fits : MembersMatch members fields) {field : String × Value}
    (inside : field ∈ fields) : ∃ member ∈ members, member.2.Matches field.2 := by
  induction fields generalizing members with
  | nil => cases inside
  | cons other rest ih =>
      cases members with
      | nil => exact fits.elim
      | cons member others =>
          rcases List.mem_cons.mp inside with rfl | later
          · exact ⟨member, List.mem_cons_self, fits.2.1⟩
          · obtain ⟨found, isMember, matched⟩ := ih fits.2.2 later
            exact ⟨found, List.mem_cons_of_mem _ isMember, matched⟩

theorem forall₂_accepts {fields : List (String × Value)}
    (each : ∀ field ∈ fields, ∀ schema : Schema, schema.Matches field.2 → Accepts schema field.2)
    {members : List (String × Schema)} (fits : MembersMatch members fields) :
    List.Forall₂ Accepts (members.map (·.2)) (fields.map (·.2)) := by
  induction fields generalizing members with
  | nil =>
      cases members with
      | nil => exact .nil
      | cons member rest => exact fits.elim
  | cons field rest ih =>
      cases members with
      | nil => exact fits.elim
      | cons member others =>
          exact .cons (each field List.mem_cons_self member.2 fits.2.1)
            (ih (fun field inside => each field (List.mem_cons_of_mem _ inside)) fits.2.2)

/-- A value that matches a schema is accepted below all nodes of the schema. -/
theorem Matches.accepts {value : Value} {schema : Schema} (fits : schema.Matches value) :
    Accepts schema value := by
  induction value generalizing schema with
  | empty => cases schema <;> exact fits.elim
  | scalar datum =>
      cases schema with
      | scalar tag =>
          obtain rfl : tag = .ofKind datum.kind := fits
          exact fun tree id sound found => ⟨_, Tree.assign_scalar sound found⟩
      | _ => exact fits.elim
  | struct name fields each =>
      cases schema with
      | struct structId members =>
          intro tree id sound found
          obtain ⟨children, _, schemas, assigned⟩ :=
            Tree.exists_assign_struct sound found (names_of_membersMatch fits) name
          rw [assigned]
          apply exists_assignElements _ sound (schemas.trans List.map_map.symm)
          exact forall₂_accepts (fun field inside schema => each field inside) fits
      | _ => exact fits.elim
  | array name element length elements each =>
      cases schema with
      | scalarArray tag arrayName fixed =>
          obtain ⟨⟨kind, rfl, rfl, typed⟩, complete⟩ := fits
          intro tree id sound found
          obtain ⟨data, assigned, _⟩ :=
            Tree.exists_assign_scalarArray sound found typed complete name length
          exact ⟨_, assigned⟩
      | structArray structId members arrayName fixed =>
          obtain ⟨inner, complete⟩ := fits
          intro tree id sound found
          obtain ⟨resized, ids, resizedEq, sameLength, _, schemas, assigned⟩ :=
            Tree.exists_assign_structArray sound found complete name element length
          rw [assigned]
          have accept : List.Forall₂ Accepts (ids.map fun _ => .struct structId members)
              elements := by
            rw [List.forall₂_map_left_iff, List.forall₂_iff_zip]
            refine ⟨sameLength, fun inside => ?_⟩
            have isElement := (List.of_mem_zip inside).2
            exact each _ isElement (elementsMatch_iff.mp inner _ isElement)
          exact exists_assignElements accept (Tree.evolution_resize sound resizedEq).sound
            (schemas.trans List.map_map.symm)
      | _ => exact fits.elim

end Schema

/-- A sound node takes the values that match its schema, and no others. -/
theorem Tree.assign_accepts_iff {tree : Tree} {id : Nat} {schema : Schema} {value : Value}
    (sound : Sound tree.nodes) (found : schemaAt tree.nodes id = some schema) :
    (tree.assign id value).2 = .ok () ↔ schema.Matches value := by
  constructor
  · exact matches_of_assign sound found
  · intro fits
    obtain ⟨after, assigned⟩ := fits.accepts tree id sound found
    rw [assigned]

/-- A value whose arrays keep their types, and whose type has a schema, has a tree when
it is complete, and only then. -/
theorem Tree.exists_ofValue_iff {value : Value} (typed : value.Typed) {schema : Schema}
    (made : Schema.ofType value.typeOf = .ok schema) :
    (∃ tree, ofValue value = .ok tree) ↔ value.Complete := by
  have present : value.isEmpty = false := by
    cases value with
    | empty => cases made
    | _ => rfl
  obtain ⟨root, isRoot, sound, found⟩ := exists_root_ofSchema (Schema.describes_ofTypeIn made).tagged
  have accepts : ((ofSchema schema).assign root value).2 = .ok () ↔ schema.Matches value :=
    assign_accepts_iff sound found
  constructor
  · rintro ⟨tree, isTree⟩
    obtain ⟨other, root, after, isSchema, _, sound, found, written, _⟩ :=
      exists_of_ofValue present isTree
    have fits := matches_of_assign sound found (congrArg Prod.snd written)
    exact Schema.complete_of_matches typed isSchema fits
  · intro complete
    have accepted := accepts.mpr (Schema.matches_of_complete typed complete made)
    rcases written : (ofSchema schema).assign root value with ⟨after, fault | _⟩
    · rw [written] at accepted
      cases accepted
    · exact ⟨after.markRoot, by simp [ofValue, present, made, write, isRoot, written]⟩

end ProcessImage.Wire
