import Mathlib.Data.List.Forall2
import ProcessImage.Proofs.Value.Complete
import ProcessImage.Proofs.Wire.Edit
import ProcessImage.Proofs.Wire.Reading
import ProcessImage.Proofs.Wire.Schema.OfType

/-!
# Values that match schemas

A tree takes a value only when the value matches its schema: shape by shape, with
the same members in the same order, with data of the tags and with the lengths that
are fixed.  Names of structures and arrays do not count, nor does what an array of
structures announces of its elements.

A value whose arrays keep their types matches the schema of its type when it is
complete, and only then.  One that a tree carries conforms if, besides, the names in
its type are different.
-/

namespace ProcessImage.Wire

open Arena

namespace Schema

mutual

/-- Whether a value can stand below a node of a schema. -/
def Matches : Schema → Value → Prop
  | .scalar tag, .scalar datum => tag = .ofKind datum.kind
  | .scalarArray tag _ length, .array _ element _ elements =>
      (∃ kind, element = .scalar kind ∧ tag = .arrayOfKind kind ∧
        ∀ value ∈ elements, value.typeOf = .scalar kind) ∧
        ∀ count ∈ length, elements.length = count
  | .struct _ members, .struct _ fields => MembersMatch members fields
  | .structArray id members _ length, .array _ _ _ elements =>
      ElementsMatch (.struct id members) elements ∧ ∀ count ∈ length, elements.length = count
  | _, _ => False

/-- Whether fields have the names of members and can stand below them. -/
def MembersMatch : List (String × Schema) → List (String × Value) → Prop
  | [], [] => True
  | (name, schema) :: rest, (field, value) :: others =>
      name = field ∧ schema.Matches value ∧ MembersMatch rest others
  | _, _ => False

/-- Whether all values can stand below nodes of a schema. -/
def ElementsMatch (schema : Schema) : List Value → Prop
  | [] => True
  | value :: rest => schema.Matches value ∧ ElementsMatch schema rest

end

theorem elementsMatch_iff {schema : Schema} {elements : List Value} :
    schema.ElementsMatch elements ↔ ∀ value ∈ elements, schema.Matches value := by
  induction elements with
  | nil => simp [ElementsMatch]
  | cons value rest ih => simp [ElementsMatch, ih]

theorem elementsMatch_of_forall₂ {schema : Schema} {schemas : List Schema} {values : List Value}
    (each : List.Forall₂ Matches schemas values) (same : ∀ other ∈ schemas, other = schema) :
    schema.ElementsMatch values := by
  induction each with
  | nil => trivial
  | cons first _ ih =>
      rw [List.forall_mem_cons] at same
      exact ⟨same.1 ▸ first, ih same.2⟩

/-- Members match fields of their names whose values match. -/
theorem membersMatch_of_forall₂ {members : List (String × Schema)} {fields : List (String × Value)}
    (names : members.map (·.1) = fields.map (·.1))
    (each : List.Forall₂ Matches (members.map (·.2)) (fields.map (·.2))) :
    MembersMatch members fields := by
  induction members generalizing fields with
  | nil =>
      cases fields with
      | nil => trivial
      | cons field rest => cases names
  | cons member rest ih =>
      cases fields with
      | nil => cases names
      | cons field others =>
          simp only [List.map_cons, List.cons.injEq] at names
          cases each with
          | cons first later => exact ⟨names.1, first, ih names.2 later⟩

end Schema

/-! ## Accepted values -/

namespace Tree

variable {tree : Tree}

/-- Values that are accepted below nodes one after the other match the schemas of
these nodes. -/
theorem forall₂_matches_of_assignElements {values : List Value}
    (each : ∀ value ∈ values, ∀ (tree : Tree) id schema, Sound tree.nodes →
      schemaAt tree.nodes id = some schema → (tree.assign id value).2 = .ok () →
        schema.Matches value)
    (sound : Sound tree.nodes) {ids : List Nat} {schemas : List Schema}
    (found : ids.map (schemaAt tree.nodes) = schemas.map some)
    (complete : ids.length = values.length)
    (accepted : (tree.assignElements ids values).2 = .ok ()) :
    List.Forall₂ Schema.Matches schemas values := by
  induction values generalizing tree ids schemas with
  | nil =>
      obtain rfl := List.length_eq_zero_iff.mp complete
      obtain rfl := List.map_eq_nil_iff.mp found.symm
      exact .nil
  | cons value rest ih =>
      cases ids with
      | nil => cases complete
      | cons id others =>
          cases schemas with
          | nil => cases found
          | cons schema more =>
              simp only [List.map_cons, List.cons.injEq] at found
              have evolution := evolution_assign value sound id
              unfold assignElements at accepted
              rcases written : tree.assign id value with ⟨next, _ | _⟩
              · rw [written] at accepted
                cases accepted
              · rw [written] at accepted evolution
                have first := each value List.mem_cons_self tree id schema sound found.1
                  (by rw [written])
                have later := fun value inside => each value (List.mem_cons_of_mem _ inside)
                exact .cons first
                  (ih later evolution.sound (evolution.growth.map_schemaAt found.2)
                    (Nat.succ.inj complete) accepted)

theorem typeOf_of_dataOfKind {kind : Kind} {elements : List Value} {data : List Datum}
    (made : dataOfKind kind elements = .ok data) :
    data.length = elements.length ∧ ∀ value ∈ elements, value.typeOf = .scalar kind := by
  induction elements generalizing data with
  | nil =>
      cases made
      exact ⟨rfl, nofun⟩
  | cons value rest ih =>
      cases value with
      | scalar datum =>
          unfold dataOfKind at made
          split at made
          next same =>
            obtain ⟨others, later, rfl⟩ := Outcome.map_eq_ok_iff.mp made
            obtain ⟨length, typed⟩ := ih later
            exact ⟨by simp [length], List.forall_mem_cons.mpr ⟨by simp [Value.typeOf, same], typed⟩⟩
          next => cases made
      | _ => cases made

/-- An array of scalars that is accepted has the kind and the length of the node. -/
theorem matches_of_assignScalars {id : Nat} {tag : Tag} {name arrayName : Option String}
    {fixed length : Option Nat} {element : DataType} {elements : List Value} {array : Value}
    {after : Tree} (found : schemaAt tree.nodes id = some (.scalarArray tag name fixed))
    (accepted : tree.assignScalars id tag array element elements = .ok after) :
    (Schema.scalarArray tag name fixed).Matches (.array arrayName element length elements) := by
  obtain ⟨items, made, put⟩ := Outcome.bind_eq_ok_iff.mp accepted
  obtain ⟨other, count, found', fits, _⟩ := putScalarArray_eq_ok_iff.mp put
  rw [found] at found'
  cases found'
  unfold itemsFor at made
  split at made
  next => cases made
  next kind isKind =>
    split at made
    next sameTag =>
      obtain ⟨data, isData, array⟩ := Outcome.bind_eq_ok_iff.mp made
      obtain ⟨sameLength, typed⟩ := typeOf_of_dataOfKind isData
      obtain ⟨isArray, _⟩ := DatumArray.ofItems_eq_ok_iff.mp array
      have isScalar : element = .scalar kind := by
        cases element with
        | scalar other => exact congrArg _ (Option.some.inj isKind)
        | _ => cases isKind
      have items : items.items = data := congrArg DatumArray.items isArray
      refine ⟨⟨kind, isScalar, sameTag.symm, typed⟩, fun count isCount => ?_⟩
      rw [← sameLength, ← items]
      exact fits count isCount
    next => cases made

theorem settle_eq_ok {attempt : Except Fault Tree} (settled : (tree.settle attempt).2 = .ok ()) :
    ∃ after, attempt = .ok after := by
  cases attempt with
  | ok after => exact ⟨after, rfl⟩
  | error fault => cases settled

/-- An array of structures is given the number of elements that it is to have. -/
theorem fitLength_eq_ok {id count : Nat} {fixed : Option Nat} {after : Tree} {ids : List Nat}
    (fitted : tree.fitLength id fixed count = .ok (after, ids)) :
    ∀ length ∈ fixed, count = length := by
  unfold fitLength at fitted
  cases fixed with
  | none => exact nofun
  | some length =>
      by_cases same : count = length
      · simpa using same
      · simp [same] at fitted

/-- An array of structures can be given any number of elements. -/
theorem exists_resize {tree : Tree} (sound : Sound tree.nodes) {id : Nat}
    {structId : Option String} {members : List (String × Schema)} {name : Option String}
    {fixed : Option Nat}
    (found : schemaAt tree.nodes id = some (.structArray structId members name fixed))
    (length : Nat) :
    ∃ after ids, tree.resize id length = .ok (after, ids) ∧ ids.length = length ∧
      contentAt after.nodes id = some (.structArray ids) ∧
      ids.map (schemaAt after.nodes) = ids.map fun _ => some (.struct structId members) := by
  obtain ⟨current, changed, nodeEq, _⟩ := sound.node_structArray found
  have tagged := Schema.Everywhere.element (sound.tagged found)
  have allocated := allocation_allocCopies tagged (length - (current.take length).length) sound
  have copies := congrArg List.length allocated.schemas
  rw [List.length_map, List.length_map, List.length_replicate] at copies
  have contentBefore : contentAt tree.nodes id = some (.structArray current) :=
    contentAt_of_node nodeEq
  have resized : tree.resize id length = .ok (_, _) := resize_eq_ok_iff.mpr
    ⟨current, structId, members, name, fixed, contentBefore, found, rfl, rfl⟩
  have evolution := evolution_resize sound resized
  have contentEq := contentAt_resize sound resized
  refine ⟨_, _, resized, ?_, contentEq, ?_⟩
  · rw [List.length_append, copies, List.length_take]
    omega
  · apply List.map_congr_left
    exact evolution.sound.admits (evolution.growth.schema found) contentEq

/-- A value that is accepted below a sound node matches the schema of the node. -/
theorem matches_of_assign {value : Value} {id : Nat} {schema : Schema} (sound : Sound tree.nodes)
    (found : schemaAt tree.nodes id = some schema)
    (accepted : (tree.assign id value).2 = .ok ()) : schema.Matches value := by
  obtain ⟨content, changed, nodeEq⟩ := exists_node found
  induction value generalizing tree id schema content changed with
  | empty => simp [assign, node?, nodeEq] at accepted
  | scalar datum =>
      simp only [assign, node?, nodeEq] at accepted
      cases schema with
      | scalar tag =>
          obtain ⟨after, assigned⟩ := settle_eq_ok accepted
          unfold assignScalar at assigned
          split at assigned
          next sameTag =>
            rw [Schema.Matches, ← sameTag, Datum.tag, Datum.element_ofScalar]
            rfl
          next => cases assigned
      | _ => cases accepted
  | struct name fields each =>
      simp only [assign, node?, nodeEq] at accepted
      cases schema with
      | struct structId members =>
          obtain ⟨children, changed, nodeEq, schemas⟩ := sound.node_struct found
          have complete := length_of_schemas schemas
          have membersEq := members_of_node nodeEq
          dsimp only at accepted
          split at accepted
          next sameNames =>
            rw [membersEq, List.map_fst_zip (by simp [complete])] at sameNames
            rw [membersEq, List.map_snd_zip (by simp [complete]),
              assignFields_eq_assignElements] at accepted
            apply Schema.membersMatch_of_forall₂ sameNames
            apply forall₂_matches_of_assignElements _ sound _ _ accepted
            · intro value inside tree id schema sound found accepted
              obtain ⟨field, isField, rfl⟩ := List.mem_map.mp inside
              obtain ⟨content, changed, nodeEq⟩ := exists_node found
              exact each field isField sound found accepted content changed nodeEq
            · rw [schemas, List.map_map]
              rfl
            · have sameLength := congrArg List.length sameNames
              simp only [List.length_map] at sameLength ⊢
              omega
          next => cases accepted
      | _ => cases accepted
  | array name element length elements each =>
      simp only [assign, node?, nodeEq] at accepted
      cases schema with
      | scalarArray tag arrayName fixed =>
          obtain ⟨after, assigned⟩ := settle_eq_ok accepted
          exact matches_of_assignScalars found assigned
      | structArray structId members arrayName fixed =>
          dsimp only at accepted
          split at accepted
          next resized ids fitted =>
            obtain ⟨after, others, isAfter, sameLength, _, schemas⟩ :=
              exists_resize sound found elements.length
            have isResized := resize_of_fitLength fitted
            rw [isResized] at isAfter
            cases isAfter
            have found : ids.map (schemaAt resized.nodes) =
                (ids.map fun _ => Schema.struct structId members).map some := by
              simpa using schemas
            have matched := forall₂_matches_of_assignElements
              (fun value inside tree id schema sound found accepted => by
                obtain ⟨content, changed, nodeEq⟩ := exists_node found
                exact each value inside sound found accepted content changed nodeEq)
              (evolution_resize sound isResized).sound found sameLength accepted
            exact ⟨Schema.elementsMatch_of_forall₂ matched (by simp), fitLength_eq_ok fitted⟩
          next => cases accepted
      | _ => cases accepted

end Tree

/-! ## Values that match the schemas of their types -/

theorem Schema.fieldsComplete_of_membersMatch {fields : List (String × Value)}
    (each : ∀ field ∈ fields, field.2.Typed → ∀ name schema,
      ofTypeIn name field.2.typeOf = .ok schema → schema.Matches field.2 → field.2.Complete)
    (typed : Value.FieldsTyped fields) {members : List (String × Schema)}
    (made : ofFields (Value.fieldTypes fields) = .ok members)
    (accepted : MembersMatch members fields) : ∀ field ∈ fields, field.2.Complete := by
  induction fields generalizing members with
  | nil => exact nofun
  | cons field rest ih =>
      obtain ⟨schema, others, first, later, rfl⟩ := ofFields_cons_eq_ok_iff.mp made
      obtain ⟨_, fits, fitOthers⟩ := accepted
      rw [List.forall_mem_cons]
      constructor
      · exact each field List.mem_cons_self typed.1 _ schema first fits
      · exact ih (fun field inside => each field (List.mem_cons_of_mem _ inside)) typed.2 later
          fitOthers

/-- A value whose arrays keep their types, and that matches the schema of its type,
has as many elements everywhere as it declares. -/
theorem Schema.complete_of_matches {value : Value} (typed : value.Typed) {field : Option String}
    {schema : Schema} (made : ofTypeIn field value.typeOf = .ok schema)
    (accepted : schema.Matches value) : value.Complete := by
  induction value generalizing field schema with
  | empty => trivial
  | scalar datum => trivial
  | struct name fields each =>
      obtain ⟨members, membersEq, rfl⟩ := ofTypeIn_struct_eq_ok_iff.mp made
      refine Value.everywhere_struct_iff.mpr ⟨trivial, ?_⟩
      exact fieldsComplete_of_membersMatch
        (fun field inside typed name schema => each field inside typed) typed membersEq accepted
  | array name element length elements each =>
      have parts := Value.elementsTyped_iff.mp typed.2
      rw [Value.Complete, Value.everywhere_array_iff]
      cases element with
      | scalar kind =>
          cases made
          refine ⟨accepted.2, fun value inside => ?_⟩
          have isScalar := (parts value inside).1
          cases value with
          | scalar datum => trivial
          | _ => cases isScalar
      | struct id fields =>
          obtain ⟨members, membersEq, rfl⟩ := ofTypeIn_structArray_eq_ok_iff.mp made
          have elementSchema : ofTypeIn none (.struct id fields) = .ok (.struct id members) :=
            ofTypeIn_struct_eq_ok_iff.mpr ⟨members, membersEq, rfl⟩
          refine ⟨accepted.2, fun value inside => ?_⟩
          obtain ⟨isElement, elementTyped⟩ := parts value inside
          exact each value inside elementTyped (isElement ▸ elementSchema)
            (elementsMatch_iff.mp accepted.1 value inside)
      | _ => cases made

theorem Schema.membersMatch_of_complete {fields : List (String × Value)}
    (each : ∀ field ∈ fields, field.2.Typed → field.2.Complete → ∀ name schema,
      ofTypeIn name field.2.typeOf = .ok schema → schema.Matches field.2)
    (typed : Value.FieldsTyped fields) (complete : ∀ field ∈ fields, field.2.Complete)
    {members : List (String × Schema)} (made : ofFields (Value.fieldTypes fields) = .ok members) :
    MembersMatch members fields := by
  induction fields generalizing members with
  | nil =>
      cases made
      trivial
  | cons field rest ih =>
      obtain ⟨schema, others, first, later, rfl⟩ := ofFields_cons_eq_ok_iff.mp made
      rw [List.forall_mem_cons] at complete
      refine ⟨rfl, each field List.mem_cons_self typed.1 complete.1 _ schema first, ?_⟩
      exact ih (fun field inside => each field (List.mem_cons_of_mem _ inside)) typed.2 complete.2
        later

/-- A complete value whose arrays keep their types matches the schema of its type. -/
theorem Schema.matches_of_complete {value : Value} (typed : value.Typed)
    (complete : value.Complete) {field : Option String} {schema : Schema}
    (made : ofTypeIn field value.typeOf = .ok schema) : schema.Matches value := by
  induction value generalizing field schema with
  | empty => cases made
  | scalar datum =>
      cases made
      rfl
  | struct name fields each =>
      obtain ⟨members, membersEq, rfl⟩ := ofTypeIn_struct_eq_ok_iff.mp made
      exact membersMatch_of_complete
        (fun field inside typed complete name schema => each field inside typed complete) typed
        (Value.everywhere_struct_iff.mp complete).2 membersEq
  | array name element length elements each =>
      have parts := Value.elementsTyped_iff.mp typed.2
      obtain ⟨all, inner⟩ := Value.everywhere_array_iff.mp complete
      cases element with
      | scalar kind =>
          cases made
          exact ⟨⟨kind, rfl, rfl, fun value inside => (parts value inside).1⟩, all⟩
      | struct id fields =>
          obtain ⟨members, membersEq, rfl⟩ := ofTypeIn_structArray_eq_ok_iff.mp made
          have elementSchema : ofTypeIn none (.struct id fields) = .ok (.struct id members) :=
            ofTypeIn_struct_eq_ok_iff.mpr ⟨members, membersEq, rfl⟩
          refine ⟨elementsMatch_iff.mpr fun value inside => ?_, all⟩
          obtain ⟨isElement, elementTyped⟩ := parts value inside
          exact each value inside elementTyped (inner value inside) (isElement ▸ elementSchema)
      | _ => cases made

namespace Tree

variable {tree : Tree} {value : Value}

/-- The tree of a value was written below the root of a fresh tree and marked. -/
theorem exists_of_ofValue (present : value.isEmpty = false) (made : ofValue value = .ok tree) :
    ∃ schema root after, Schema.ofType value.typeOf = .ok schema ∧
      (ofSchema schema).root = some root ∧ Sound (ofSchema schema).nodes ∧
      schemaAt (ofSchema schema).nodes root = some schema ∧
      (ofSchema schema).assign root value = (after, .ok ()) ∧ after.markRoot = tree := by
  unfold ofValue at made
  rw [present] at made
  obtain ⟨schema, isSchema, rest⟩ := Outcome.bind_eq_ok_iff.mp made
  obtain ⟨root, isRoot, sound, found⟩ :=
    exists_root_ofSchema (Schema.describes_ofTypeIn isSchema).tagged
  rcases written : (ofSchema schema).assign root value with ⟨after, fault | done⟩
  · simp [write, isRoot, written] at rest
  · simp only [write, isRoot, written] at rest
    exact ⟨schema, root, after, isSchema, isRoot, sound, found, written, Except.ok.inj rest⟩

/-- A value in a type is carried by a tree only when it conforms. -/
theorem conforming_of_ofValue (present : value.isEmpty = false) (typed : value.Typed)
    (distinct : value.typeOf.DistinctNames) (made : ofValue value = .ok tree) :
    value.Conforming := by
  obtain ⟨schema, root, after, isSchema, _, sound, found, written, _⟩ :=
    exists_of_ofValue present made
  have accepted := matches_of_assign sound found (congrArg Prod.snd written)
  refine ⟨Schema.hasWireForm_of_ofTypeIn isSchema, Value.regular_iff.mpr ⟨typed, ?_, ?_⟩⟩
  · exact Schema.complete_of_matches typed isSchema accepted
  · exact Value.distinctFields_of_typed typed distinct

end Tree

end ProcessImage.Wire
