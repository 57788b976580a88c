import ProcessImage.Proofs.Wire.Acceptance
import ProcessImage.Proofs.Wire.Separation

/-!
# Values in the dress of a type

A tree does not keep what a value says of itself: names of structures and arrays,
element types and lengths are those of the schema, and characters are bytes.
`Value.dressed` puts a value into the names, element types and lengths of a type.

What is read below a node in which a value was written is that value, dressed in
the type of the schema, whatever stood there before: `Branch.read_of_assign`.
Nothing of an earlier value shows, because every part is written and parts are
separate.
-/

namespace ProcessImage

namespace Value

/-! ## Dressed values -/

mutual

/-- The value with the names, element types and lengths of a type. -/
def dressed : DataType → Value → Value
  | .struct name types, .struct _ fields => .struct name (dressedFields types fields)
  | .array name element length, .array _ _ _ elements =>
      .array name element length (allDressed element elements)
  | _, value => value

/-- Fields dressed in types one by one. -/
def dressedFields : List (String × DataType) → List (String × Value) → List (String × Value)
  | (_, type) :: types, (name, value) :: rest =>
      (name, value.dressed type) :: dressedFields types rest
  | _, fields => fields

/-- Values that are all dressed in one type. -/
def allDressed (type : DataType) : List Value → List Value
  | [] => []
  | value :: rest => value.dressed type :: allDressed type rest

end

theorem allDressed_eq_map (type : DataType) (values : List Value) :
    allDressed type values = values.map (dressed type) := by
  induction values with
  | nil => rfl
  | cons value rest ih => simp [allDressed, ih]

theorem names_dressedFields (types : List (String × DataType)) (fields : List (String × Value)) :
    (dressedFields types fields).map (·.1) = fields.map (·.1) := by
  induction fields generalizing types with
  | nil => cases types <;> rfl
  | cons field rest ih =>
      cases types with
      | nil => rfl
      | cons type types => simp [dressedFields, ih]

theorem dressedFields_of_typed {fields : List (String × Value)}
    (each : ∀ field ∈ fields, field.2.dressed field.2.typeOf = field.2) :
    dressedFields (fieldTypes fields) fields = fields := by
  induction fields with
  | nil => rfl
  | cons field rest ih =>
      have later := ih fun field inside => each field (List.mem_cons_of_mem _ inside)
      rw [fieldTypes, dressedFields, each field List.mem_cons_self, later]

/-- A value whose arrays keep their types wears its own type. -/
theorem dressed_of_typed {value : Value} (typed : value.Typed) :
    value.dressed value.typeOf = value := by
  induction value with
  | empty => rfl
  | scalar datum => rfl
  | struct name fields each =>
      have inner := dressedFields_of_typed fun field inside =>
        each field inside (fieldsTyped_iff.mp typed field inside)
      rw [typeOf, dressed, inner]
  | array name element length elements each =>
      have same : elements.map (dressed element) = elements.map id := by
        apply List.map_congr_left
        intro value inside
        obtain ⟨isElement, elementTyped⟩ := elementsTyped_iff.mp typed.2 value inside
        rw [← isElement, each value inside elementTyped, id]
      rw [typeOf, dressed, allDressed_eq_map, same, List.map_id]

/-- Arrays that keep their types keep them with bytes for characters. -/
theorem typed_charsAsBytes {value : Value} (typed : value.Typed) : value.charsAsBytes.Typed := by
  induction value with
  | empty => trivial
  | scalar datum => trivial
  | struct name fields each =>
      rw [charsAsBytes, Typed, fieldsCharsAsBytes_eq_map, fieldsTyped_iff, List.forall_mem_map]
      exact fun field inside => each field inside (fieldsTyped_iff.mp typed field inside)
  | array name element length elements each =>
      rw [charsAsBytes, Typed, allCharsAsBytes_eq_map, elementsTyped_iff, List.length_map,
        List.forall_mem_map]
      refine ⟨typed.1, fun value inside => ?_⟩
      obtain ⟨isElement, elementTyped⟩ := elementsTyped_iff.mp typed.2 value inside
      exact ⟨by rw [typeOf_charsAsBytes, isElement], each value inside elementTyped⟩

end Value

namespace Wire

open Arena

theorem Schema.fieldTypes_dressedFields {fields : List (String × Value)}
    (each : ∀ field ∈ fields, ∀ (schema : Schema) type, schema.Matches field.2 →
      schema.type = .ok type → (field.2.charsAsBytes.dressed type).typeOf = type)
    {members : List (String × Schema)} (fits : MembersMatch members fields)
    {types : List (String × DataType)} (described : memberTypes members = .ok types) :
    Value.fieldTypes (Value.dressedFields types (Value.fieldsCharsAsBytes fields)) = types := by
  induction fields generalizing members types with
  | nil =>
      cases members with
      | nil =>
          cases described
          rfl
      | cons member rest => exact fits.elim
  | cons field rest ih =>
      cases members with
      | nil => exact fits.elim
      | cons member others =>
          obtain ⟨type, more, first, later, rfl⟩ := memberTypes_cons_eq_ok_iff.mp described
          have inner := ih (fun field inside => each field (List.mem_cons_of_mem _ inside))
            fits.2.2 later
          rw [Value.fieldsCharsAsBytes, Value.dressedFields, Value.fieldTypes, inner,
            each field List.mem_cons_self member.2 type fits.2.1 first, fits.1]

/-- A value that matches a schema has the type of the schema once it wears it. -/
theorem Schema.typeOf_dressed {value : Value} {schema : Schema} (fits : schema.Matches value)
    {type : DataType} (described : schema.type = .ok type) :
    (value.charsAsBytes.dressed type).typeOf = type := by
  induction value generalizing schema type with
  | empty => cases schema <;> exact fits.elim
  | scalar datum =>
      cases schema with
      | scalar tag =>
          obtain rfl : tag = .ofKind datum.kind := fits
          rw [Schema.type, (kindOfTag_ofKind datum.kind).1] at described
          cases described
          exact congrArg DataType.scalar datum.kind_charsAsBytes
      | _ => exact fits.elim
  | struct name fields each =>
      cases schema with
      | struct structId members =>
          obtain ⟨types, typesEq, rfl⟩ := type_struct_eq_ok_iff.mp described
          have inner := fieldTypes_dressedFields
            (fun field inside schema type fits described => each field inside fits described)
            fits typesEq
          rw [Value.charsAsBytes, Value.dressed, Value.typeOf, inner]
      | _ => exact fits.elim
  | array name element length elements each =>
      cases schema with
      | scalarArray tag arrayName fixed =>
          obtain ⟨⟨kind, _, rfl, _⟩, _⟩ := fits
          rw [Schema.type, (kindOfTag_ofKind kind).2] at described
          cases described
          rfl
      | structArray structId members arrayName fixed =>
          obtain ⟨types, _, rfl⟩ := type_structArray_eq_ok_iff.mp described
          rfl
      | _ => exact fits.elim

/-! ## Reading what was written -/

/-- Whether a value is read as another one below every sound node of a schema in
which it was written. -/
def ReadsAs (schema : Schema) (value shown : Value) : Prop :=
  ∀ (tree : Tree) (id : Nat) (after : Tree), Sound tree.nodes →
    schemaAt tree.nodes id = some schema → tree.assign id value = (after, .ok ()) →
      (Branch.ofNode after.nodes schema id).read = .ok shown

/-- What is read below a child stays when what is below its siblings is touched. -/
theorem read_ofNode_of_siblings {before after : Tree} (sound : Sound before.nodes)
    {parent child : Nat} {others : List Nat} (isChild : child ∈ childrenAt before.nodes parent)
    (siblings : ∀ other ∈ others, other ∈ childrenAt before.nodes parent) (apart : child ∉ others)
    (evolution : Evolution (fun id => ∃ top ∈ others, Below before.nodes top id) before after)
    {schema : Schema} (found : schemaAt before.nodes child = some schema) :
    (Branch.ofNode after.nodes schema child).read =
      (Branch.ofNode before.nodes schema child).read := by
  apply Branch.read_ofNode_congr
  intro other below
  obtain ⟨_, otherFound, _⟩ := sound.sizeOf_le_of_below below found
  apply evolution.frame other (lt_size_of_schemaAt otherFound)
  rintro ⟨top, isTop, belowTop⟩
  have different : child ≠ top := fun same => apart (same ▸ isTop)
  exact sound.not_below_both isChild (siblings top isTop) different below belowTop

/-- Values that were written below the children of a node one after the other are
all read there afterwards, and the node itself keeps its children. -/
theorem read_of_assignElements {members : List (String × Schema)} {parts : List (Value × Value)}
    (reads : List.Forall₂ (fun member part => ReadsAs member.2 part.1 part.2) members parts)
    {tree after : Tree} (sound : Sound tree.nodes) (parent : Nat) {children : List Nat}
    (schemas : children.map (schemaAt tree.nodes) = members.map fun member => some member.2)
    (nodup : children.Nodup) (inside : ∀ child ∈ children, child ∈ childrenAt tree.nodes parent)
    (written : tree.assignElements children (parts.map (·.1)) = (after, .ok ())) :
    (Branch.ofMembers after.nodes members children).map (fun member => member.2.read) =
        parts.map (fun part => .ok part.2) ∧
      contentAt after.nodes parent = contentAt tree.nodes parent := by
  induction reads generalizing tree children with
  | nil =>
      cases children with
      | nil =>
          cases written
          exact ⟨rfl, rfl⟩
      | cons child rest => cases schemas
  | @cons member part members parts first _ ih =>
      cases children with
      | nil => cases schemas
      | cons child others =>
          simp only [List.map_cons, List.cons.injEq] at schemas
          have isChild := inside child List.mem_cons_self
          have fresh := List.nodup_cons.mp nodup
          rw [List.map_cons, Tree.assignElements] at written
          have earlier := Tree.evolution_assign part.1 sound child
          rcases firstWritten : tree.assign child part.1 with ⟨middle, _ | _⟩
          · rw [firstWritten] at written
            cases written
          · rw [firstWritten] at written earlier
            dsimp only at written earlier
            have contentKept : contentAt middle.nodes parent = contentAt tree.nodes parent :=
              earlier.frame parent (lt_size_of_mem_childrenAt isChild)
                (sound.not_below_child isChild)
            have parentKept := childrenAt_congr contentKept
            have siblings : ∀ other ∈ others, other ∈ childrenAt middle.nodes parent :=
              fun other isOther => parentKept ▸ inside other (List.mem_cons_of_mem _ isOther)
            have laterSchemas : others.map (schemaAt middle.nodes) =
                members.map fun member => some member.2 := by
              simpa [Function.comp_def] using
                earlier.growth.map_schemaAt (schemas.2.trans List.map_map.symm)
            obtain ⟨readAll, contentKeptAll⟩ :=
              ih earlier.sound laterSchemas fresh.2 siblings written
            have later := Tree.evolution_assignElements (parts.map (·.1))
              (fun value _ _ sound id => Tree.evolution_assign value sound id) earlier.sound others
            rw [written] at later
            have kept := read_ofNode_of_siblings earlier.sound (parentKept ▸ isChild) siblings
              fresh.1 later (earlier.growth.schema schemas.1)
            have read := first tree child middle sound schemas.1 firstWritten
            refine ⟨?_, contentKeptAll.trans contentKept⟩
            simp only [Branch.ofMembers, List.map_cons, kept, read, readAll]

/-- A node that is stored has the new content and its old schema. -/
theorem Tree.node_store {tree : Tree} {id : Nat} {node : Node}
    (nodeEq : tree.nodes[id]? = some node) (content : Content) :
    (tree.store id content).nodes[id]? = some ⟨node.schema, content, true⟩ := by
  simp [Tree.store, Array.getElem?_modify, nodeEq]

/-- Members whose values are known are read as fields. -/
theorem Branch.readFields_eq_ok {members : List (String × Branch)} {fields : List (String × Value)}
    (names : members.map (·.1) = fields.map (·.1))
    (values : members.map (fun member => member.2.read) = fields.map fun field => .ok field.2) :
    Branch.readFields members = .ok fields := by
  induction members generalizing fields with
  | nil =>
      cases fields with
      | nil => rfl
      | cons field rest => cases names
  | cons member rest ih =>
      cases fields with
      | nil => cases names
      | cons field others =>
          simp only [List.map_cons, List.cons.injEq] at names values
          simp [Branch.readFields, values.1, ih names.2 values.2, names.1]

/-- Branches whose values are known are read as those values. -/
theorem Branch.readAll_eq_ok {branches : List Branch} {values : List Value}
    (known : branches.map Branch.read = values.map .ok) : Branch.readAll branches = .ok values := by
  induction branches generalizing values with
  | nil =>
      cases values with
      | nil => rfl
      | cons value rest => cases known
  | cons branch rest ih =>
      cases values with
      | nil => cases known
      | cons value others =>
          simp only [List.map_cons, List.cons.injEq] at known
          simp [Branch.readAll, known.1, ih known.2]

/-- Elements are read as members of any names would be. -/
theorem Branch.map_ofMembers_elements (nodes : Array Node) (schema : Schema)
    (elements : List Nat) :
    (Branch.ofMembers nodes (elements.map fun _ => ("", schema)) elements).map
      (fun member => member.2.read) =
        (elements.map (Branch.ofNode nodes schema)).map Branch.read := by
  induction elements with
  | nil => rfl
  | cons element rest ih => simp only [List.map_cons, Branch.ofMembers, ih]

/-! ## Shape by shape -/

theorem readsAs_scalar (datum : Scalar) :
    ReadsAs (.scalar (.ofKind datum.kind)) (.scalar datum) (.scalar datum.charsAsBytes) := by
  intro tree id after sound found written
  obtain ⟨current, changed, nodeEq, _⟩ := sound.node_scalar found
  rw [Tree.assign_scalar sound found] at written
  cases written
  simp [Branch.ofNode, Tree.node_store nodeEq, Branch.read,
    Datum.scalar_ofScalar_eq_charsAsBytes]

theorem readsAs_scalarArray {kind : Kind} {elements : List Value} {fixed : Option Nat}
    (typed : ∀ value ∈ elements, value.typeOf = .scalar kind)
    (fits : ∀ count ∈ fixed, elements.length = count) (name arrayName : Option String)
    (length : Option Nat) :
    ReadsAs (.scalarArray (.arrayOfKind kind) name fixed)
      (.array arrayName (.scalar kind) length elements)
      (.array name (.scalar kind.charsAsBytes) fixed (elements.map Value.charsAsBytes)) := by
  intro tree id after sound found written
  obtain ⟨current, changed, nodeEq, _⟩ := sound.node_scalarArray found
  obtain ⟨data, assigned, values⟩ :=
    Tree.exists_assign_scalarArray sound found typed fits arrayName length
  rw [assigned] at written
  cases written
  simp [Branch.ofNode, Tree.node_store nodeEq, Branch.read, Schema.kindOfTag_ofKind,
    Branch.itemValues, values]

/-- Fields are read as what each of them is read as. -/
theorem readsAs_struct {structId name : Option String} {members : List (String × Schema)}
    {fields shown : List (String × Value)} (names : members.map (·.1) = fields.map (·.1))
    (sameNames : shown.map (·.1) = fields.map (·.1)) (nodup : (fields.map (·.1)).Nodup)
    (reads : List.Forall₂ (fun member part => ReadsAs member.2 part.1 part.2) members
      ((fields.map (·.2)).zip (shown.map (·.2)))) :
    ReadsAs (.struct structId members) (.struct name fields) (.struct structId shown) := by
  intro tree id after sound found written
  obtain ⟨children, contentEq, schemas, assigned⟩ :=
    Tree.exists_assign_struct sound found names name
  have complete := length_of_schemas schemas
  have childrenEq : childrenAt tree.nodes id = children := childrenAt_of_contentAt contentEq
  have sameLength : (fields.map (·.2)).length = (shown.map (·.2)).length := by
    simpa using (congrArg List.length sameNames).symm
  rw [assigned, ← List.map_fst_zip (Nat.le_of_eq sameLength)] at written
  obtain ⟨read, kept⟩ := read_of_assignElements reads sound id schemas
    (childrenEq ▸ sound.nodup id) (fun child inside => childrenEq ▸ inside) written
  obtain ⟨schema, changed, nodeAfter⟩ := exists_node_of_contentAt (kept.trans contentEq)
  have branchNames : (Branch.ofMembers after.nodes members children).map (·.1) =
      shown.map (·.1) := by
    rw [Branch.names_ofMembers complete, names, sameNames]
  have branchValues : (Branch.ofMembers after.nodes members children).map
      (fun member => member.2.read) = shown.map fun field => .ok field.2 := by
    have seconds := List.map_snd_zip (Nat.le_of_eq sameLength.symm)
    rw [read]
    simpa [Function.comp_def] using congrArg (List.map Except.ok) seconds
  rw [Branch.ofNode_struct nodeAfter, Branch.read_struct complete (names ▸ nodup),
    Branch.readFields_eq_ok branchNames branchValues]
  rfl

/-- Elements are read as what each of them is read as, once this is of the type that
the schema describes. -/
theorem readsAs_structArray {structId name arrayName : Option String}
    {members : List (String × Schema)} {types : List (String × DataType)}
    {fixed length : Option Nat} {element : DataType} {elements : List Value}
    (described : Schema.memberTypes members = .ok types)
    (fits : ∀ count ∈ fixed, elements.length = count) (shown : Value → Value)
    (typed : ∀ value ∈ elements, (shown value).typeOf = .struct structId types)
    (reads : ∀ value ∈ elements, ReadsAs (.struct structId members) value (shown value)) :
    ReadsAs (.structArray structId members name fixed) (.array arrayName element length elements)
      (.array name (.struct structId types) fixed (elements.map shown)) := by
  intro tree id after sound found written
  obtain ⟨resized, ids, resizedEq, sameLength, contentEq, schemas, assigned⟩ :=
    Tree.exists_assign_structArray sound found fits arrayName element length
  have evolution := Tree.evolution_resize sound resizedEq
  have childrenEq : childrenAt resized.nodes id = ids := childrenAt_of_contentAt contentEq
  have readsAll : List.Forall₂
      (fun (member : String × Schema) part => ReadsAs member.2 part.1 part.2)
      (ids.map fun _ => ("", .struct structId members))
      (elements.map fun value => (value, shown value)) := by
    rw [List.forall₂_map_left_iff, List.forall₂_map_right_iff, List.forall₂_iff_zip]
    exact ⟨sameLength, fun inside => reads _ (List.of_mem_zip inside).2⟩
  have firsts : (elements.map fun value => (value, shown value)).map (·.1) = elements := by
    simp [Function.comp_def]
  rw [assigned, ← firsts] at written
  obtain ⟨read, kept⟩ := read_of_assignElements readsAll evolution.sound id
    (by simpa using schemas) (childrenEq ▸ evolution.sound.nodup id)
    (fun child inside => childrenEq ▸ inside) written
  obtain ⟨schema, changed, nodeAfter⟩ := exists_node_of_contentAt (kept.trans contentEq)
  rw [Branch.map_ofMembers_elements] at read
  have known : (ids.map (Branch.ofNode after.nodes (.struct structId members))).map Branch.read =
      (elements.map shown).map .ok := by
    rw [read]
    simp [Function.comp_def]
  rw [Branch.ofNode_structArray nodeAfter, Branch.read_structArray described,
    Branch.readAll_eq_ok known]
  · rfl
  · intro branch inside value outcome
    have isKnown : branch.read ∈ (elements.map shown).map Except.ok :=
      known ▸ List.mem_map_of_mem inside
    rw [outcome, List.map_map] at isKnown
    obtain ⟨element, isElement, same⟩ := List.mem_map.mp isKnown
    rw [← Except.ok.inj same, typed element isElement]

/-! ## Whole values -/

theorem forall₂_readsAs {fields : List (String × Value)}
    (each : ∀ field ∈ fields, ∀ (schema : Schema) type, schema.Matches field.2 →
      schema.type = .ok type → ReadsAs schema field.2 (field.2.charsAsBytes.dressed type))
    {members : List (String × Schema)} (fits : Schema.MembersMatch members fields)
    {types : List (String × DataType)} (described : Schema.memberTypes members = .ok types) :
    List.Forall₂ (fun member part => ReadsAs member.2 part.1 part.2) members
      ((fields.map (·.2)).zip
        ((Value.dressedFields types (Value.fieldsCharsAsBytes fields)).map (·.2))) := by
  induction fields generalizing members types with
  | nil =>
      cases members with
      | nil => exact .nil
      | cons member rest => exact fits.elim
  | cons field rest ih =>
      cases members with
      | nil => exact fits.elim
      | cons member others =>
          obtain ⟨type, more, first, later, rfl⟩ :=
            Schema.memberTypes_cons_eq_ok_iff.mp described
          exact .cons (each field List.mem_cons_self member.2 type fits.2.1 first)
            (ih (fun field inside => each field (List.mem_cons_of_mem _ inside)) fits.2.2 later)

/-- A value that matches a schema is read in the type of the schema, if its fields
have different names. -/
theorem Schema.Matches.readsAs {value : Value} {schema : Schema} (fits : schema.Matches value)
    (distinct : value.DistinctFields) {type : DataType} (described : schema.type = .ok type) :
    ReadsAs schema value (value.charsAsBytes.dressed type) := by
  induction value generalizing schema type with
  | empty => cases schema <;> exact fits.elim
  | scalar datum =>
      cases schema with
      | scalar tag =>
          obtain rfl : tag = .ofKind datum.kind := fits
          rw [Schema.type, (kindOfTag_ofKind datum.kind).1] at described
          cases described
          exact readsAs_scalar datum
      | _ => exact fits.elim
  | struct name fields each =>
      cases schema with
      | struct structId members =>
          obtain ⟨types, typesEq, rfl⟩ := type_struct_eq_ok_iff.mp described
          obtain ⟨nodup, inner⟩ := Value.everywhere_struct_iff.mp distinct
          have reads := forall₂_readsAs (fun field inside schema type fits described =>
            each field inside fits (inner field inside) described) fits typesEq
          refine readsAs_struct (names_of_membersMatch fits) ?_ nodup reads
          rw [Value.names_dressedFields, Value.fieldsCharsAsBytes_eq_map]
          simp [Function.comp_def]
      | _ => exact fits.elim
  | array name element length elements each =>
      cases schema with
      | scalarArray tag arrayName fixed =>
          obtain ⟨⟨kind, rfl, rfl, typed⟩, complete⟩ := fits
          rw [Schema.type, (kindOfTag_ofKind kind).2] at described
          cases described
          have scalars : (elements.map Value.charsAsBytes).map
              (Value.dressed (.scalar kind.charsAsBytes)) = elements.map Value.charsAsBytes := by
            rw [List.map_map]
            apply List.map_congr_left
            intro value _
            cases value <;> rfl
          rw [Value.charsAsBytes, Value.dressed, Value.allCharsAsBytes_eq_map,
            Value.allDressed_eq_map, scalars]
          exact readsAs_scalarArray typed complete _ _ _
      | structArray structId members arrayName fixed =>
          obtain ⟨inner, complete⟩ := fits
          obtain ⟨types, typesEq, rfl⟩ := type_structArray_eq_ok_iff.mp described
          have fitsElement := elementsMatch_iff.mp inner
          have elementType : (Schema.struct structId members).type =
              .ok (.struct structId types) := type_struct_eq_ok_iff.mpr ⟨types, typesEq, rfl⟩
          rw [Value.charsAsBytes, Value.dressed, Value.allCharsAsBytes_eq_map,
            Value.allDressed_eq_map, List.map_map]
          apply readsAs_structArray typesEq complete
          · exact fun value inside => typeOf_dressed (fitsElement value inside) elementType
          · exact fun value inside => each value inside (fitsElement value inside)
              ((Value.everywhere_array_iff.mp distinct).2 value inside) elementType
      | _ => exact fits.elim

end Wire

end ProcessImage
