import ProcessImage.Proofs.Value.Conforming
import ProcessImage.Proofs.Wire.Schema

/-!
# Schemas of types

The types that can travel are those that have a schema.  The schema of a type
has the tags of its shapes, and it describes the type again, but for
characters, which arrive as bytes.
-/

namespace ProcessImage.Wire.Schema

theorem ofTypeIn_struct_eq_ok_iff {field name : Option String}
    {fields : List (String × DataType)} {schema : Schema} :
    ofTypeIn field (.struct name fields) = .ok schema ↔
      ∃ members, ofFields fields = .ok members ∧ .struct name members = schema := by
  simp [ofTypeIn, Outcome.bind_eq_ok_iff]

theorem ofFields_cons_eq_ok_iff {name : String} {type : DataType}
    {rest : List (String × DataType)} {members : List (String × Schema)} :
    ofFields ((name, type) :: rest) = .ok members ↔
      ∃ schema others, ofTypeIn (some name) type = .ok schema ∧ ofFields rest = .ok others ∧
        (name, schema) :: others = members := by
  simp [ofFields, Outcome.bind_eq_ok_iff]

theorem names_ofFields {fields : List (String × DataType)} {members : List (String × Schema)}
    (made : ofFields fields = .ok members) : members.map (·.1) = fields.map (·.1) := by
  induction fields generalizing members with
  | nil =>
      cases made
      rfl
  | cons field rest ih =>
      obtain ⟨schema, others, _, later, rfl⟩ := ofFields_cons_eq_ok_iff.mp made
      simp [ih later]

theorem ofTypeIn_structArray_eq_ok_iff {field name : Option String} {id : Option String}
    {fields : List (String × DataType)} {length : Option Nat} {schema : Schema} :
    ofTypeIn field (.array name (.struct id fields) length) = .ok schema ↔
      ∃ members, ofFields fields = .ok members ∧ .structArray id members name length = schema := by
  simp [ofTypeIn, Outcome.bind_eq_ok_iff]

theorem exists_ofFields {fields : List (String × DataType)}
    (each : ∀ field ∈ fields, field.2.HasWireForm → ∀ name, ∃ schema,
      ofTypeIn name field.2 = .ok schema)
    (wireForm : DataType.FieldsHaveWireForm fields) :
    ∃ members, ofFields fields = .ok members := by
  induction fields with
  | nil => exact ⟨[], rfl⟩
  | cons field rest ih =>
      rcases field with ⟨name, type⟩
      obtain ⟨schema, first⟩ := each (name, type) List.mem_cons_self wireForm.1 (some name)
      obtain ⟨members, later⟩ :=
        ih (fun field inside => each field (List.mem_cons_of_mem _ inside)) wireForm.2
      exact ⟨_, ofFields_cons_eq_ok_iff.mpr ⟨schema, members, first, later, rfl⟩⟩

/-- A type that can travel has a schema. -/
theorem exists_ofTypeIn {type : DataType} (wireForm : type.HasWireForm) (field : Option String) :
    ∃ schema, ofTypeIn field type = .ok schema := by
  induction type generalizing field with
  | empty => exact wireForm.elim
  | scalar kind => exact ⟨_, rfl⟩
  | struct name fields each =>
      obtain ⟨members, membersEq⟩ := exists_ofFields each wireForm
      exact ⟨_, ofTypeIn_struct_eq_ok_iff.mpr ⟨members, membersEq, rfl⟩⟩
  | array name element length inner =>
      rcases wireForm with ⟨noArray, elementForm⟩
      obtain ⟨schema, schemaEq⟩ := inner elementForm none
      cases element with
      | empty => exact elementForm.elim
      | scalar kind => exact ⟨_, rfl⟩
      | struct id fields =>
          obtain ⟨members, membersEq, _⟩ := ofTypeIn_struct_eq_ok_iff.mp schemaEq
          exact ⟨_, ofTypeIn_structArray_eq_ok_iff.mpr ⟨members, membersEq, rfl⟩⟩
      | array => cases noArray

/-- What is known of the schema of a type: scalars have their own tags, and the
schema describes the type again, with bytes for characters. -/
structure Describes (schema : Schema) (type : DataType) : Prop where
  tagged : schema.WellTagged
  type : schema.type = .ok type.charsAsBytes

theorem describes_ofFields {fields : List (String × DataType)}
    (each : ∀ field ∈ fields, ∀ name schema, ofTypeIn name field.2 = .ok schema →
      schema.Describes field.2)
    {members : List (String × Schema)} (made : ofFields fields = .ok members) :
    MembersEverywhere HasOwnTag members ∧
      memberTypes members = .ok (DataType.fieldsCharsAsBytes fields) := by
  induction fields generalizing members with
  | nil =>
      cases made
      exact ⟨trivial, rfl⟩
  | cons field rest ih =>
      rcases field with ⟨name, type⟩
      obtain ⟨schema, others, first, later, rfl⟩ := ofFields_cons_eq_ok_iff.mp made
      have described := each (name, type) List.mem_cons_self (some name) schema first
      obtain ⟨tagged, types⟩ :=
        ih (fun field inside => each field (List.mem_cons_of_mem _ inside)) later
      constructor
      · exact ⟨described.tagged, tagged⟩
      · exact memberTypes_cons_eq_ok_iff.mpr ⟨_, _, described.type, types, rfl⟩

/-- A tag is found again from its kind, but for characters. -/
theorem kindOfTag_ofKind (kind : Kind) :
    kindOfTag (.ofKind kind) = .ok kind.charsAsBytes ∧
      kindOfTag (.arrayOfKind kind) = .ok kind.charsAsBytes := by
  cases kind with
  | integer kind => cases kind <;> exact ⟨rfl, rfl⟩
  | _ => exact ⟨rfl, rfl⟩

theorem describes_ofTypeIn {type : DataType} {field : Option String} {schema : Schema}
    (made : ofTypeIn field type = .ok schema) : schema.Describes type := by
  induction type generalizing field schema with
  | empty => cases made
  | scalar kind =>
      cases made
      constructor
      · rfl
      · simp [Schema.type, kindOfTag_ofKind, DataType.charsAsBytes]
  | struct name fields each =>
      obtain ⟨members, membersEq, rfl⟩ := ofTypeIn_struct_eq_ok_iff.mp made
      obtain ⟨tagged, types⟩ :=
        describes_ofFields (fun field inside name schema => each field inside) membersEq
      exact ⟨⟨trivial, tagged⟩, type_struct_eq_ok_iff.mpr ⟨_, types, rfl⟩⟩
  | array name element length inner =>
      cases element with
      | empty => cases made
      | scalar kind =>
          cases made
          constructor
          · rfl
          · simp [Schema.type, kindOfTag_ofKind, DataType.charsAsBytes]
      | struct id fields =>
          obtain ⟨members, membersEq, rfl⟩ := ofTypeIn_structArray_eq_ok_iff.mp made
          have element : ofTypeIn none (.struct id fields) = .ok (.struct id members) :=
            ofTypeIn_struct_eq_ok_iff.mpr ⟨members, membersEq, rfl⟩
          have described := inner element
          obtain ⟨types, typesEq, same⟩ := type_struct_eq_ok_iff.mp described.type
          constructor
          · exact ⟨trivial, described.tagged⟩
          · exact type_structArray_eq_ok_iff.mpr ⟨types, typesEq, by rw [same]; rfl⟩
      | array => cases made

/-! ## Types without schemas -/

theorem fieldsHaveWireForm_of_ofFields {fields : List (String × DataType)}
    (each : ∀ field ∈ fields, ∀ name schema, ofTypeIn name field.2 = .ok schema →
      field.2.HasWireForm)
    {members : List (String × Schema)} (made : ofFields fields = .ok members) :
    DataType.FieldsHaveWireForm fields := by
  induction fields generalizing members with
  | nil => trivial
  | cons field rest ih =>
      obtain ⟨schema, others, first, later, _⟩ := ofFields_cons_eq_ok_iff.mp made
      exact ⟨each field List.mem_cons_self _ schema first,
        ih (fun field inside => each field (List.mem_cons_of_mem _ inside)) later⟩

/-- A type that has a schema can travel. -/
theorem hasWireForm_of_ofTypeIn {type : DataType} {field : Option String} {schema : Schema}
    (made : ofTypeIn field type = .ok schema) : type.HasWireForm := by
  induction type generalizing field schema with
  | empty => cases made
  | scalar kind => trivial
  | struct name fields each =>
      obtain ⟨members, membersEq, _⟩ := ofTypeIn_struct_eq_ok_iff.mp made
      exact fieldsHaveWireForm_of_ofFields
        (fun field inside name schema => each field inside) membersEq
  | array name element length inner =>
      cases element with
      | empty => cases made
      | scalar kind => exact ⟨rfl, trivial⟩
      | struct id fields =>
          obtain ⟨members, membersEq, _⟩ := ofTypeIn_structArray_eq_ok_iff.mp made
          have elementMade : ofTypeIn none (.struct id fields) = .ok (.struct id members) :=
            ofTypeIn_struct_eq_ok_iff.mpr ⟨members, membersEq, rfl⟩
          exact ⟨rfl, inner elementMade⟩
      | array => cases made

theorem ofTypeIn_struct_eq_error_iff {field name : Option String}
    {fields : List (String × DataType)} {fault : Fault} :
    ofTypeIn field (.struct name fields) = .error fault ↔ ofFields fields = .error fault := by
  cases members : ofFields fields <;> simp [ofTypeIn, members]

theorem ofTypeIn_structArray_eq_error_iff {field name id : Option String}
    {fields : List (String × DataType)} {length : Option Nat} {fault : Fault} :
    ofTypeIn field (.array name (.struct id fields) length) = .error fault ↔
      ofFields fields = .error fault := by
  cases members : ofFields fields <;> simp [ofTypeIn, members]

/-- When fields have no schemas, then the first one has none or the others have
none. -/
theorem ofFields_cons_eq_error_iff {name : String} {type : DataType}
    {rest : List (String × DataType)} {fault : Fault} :
    ofFields ((name, type) :: rest) = .error fault ↔
      ofTypeIn (some name) type = .error fault ∨
        (∃ schema, ofTypeIn (some name) type = .ok schema) ∧ ofFields rest = .error fault := by
  cases first : ofTypeIn (some name) type with
  | error _ => simp [ofFields, first]
  | ok schema => cases others : ofFields rest <;> simp [ofFields, first, others]

theorem category_of_ofFields_eq_error {fields : List (String × DataType)} {fault : Fault}
    (each : ∀ field ∈ fields, ∀ name, ofTypeIn name field.2 = .error fault →
      fault.category = .unknownType)
    (refused : ofFields fields = .error fault) : fault.category = .unknownType := by
  induction fields with
  | nil => cases refused
  | cons field rest ih =>
      rcases ofFields_cons_eq_error_iff.mp refused with first | ⟨_, others⟩
      · exact each field List.mem_cons_self _ first
      · exact ih (fun field inside => each field (List.mem_cons_of_mem _ inside)) others

/-- A type without a schema is refused as unknown. -/
theorem category_of_ofTypeIn_eq_error {type : DataType} {field : Option String} {fault : Fault}
    (refused : ofTypeIn field type = .error fault) : fault.category = .unknownType := by
  induction type generalizing field with
  | empty =>
      cases refused
      rfl
  | scalar kind => cases refused
  | struct name fields each =>
      exact category_of_ofFields_eq_error (fun field inside name => each field inside)
        (ofTypeIn_struct_eq_error_iff.mp refused)
  | array name element length inner =>
      cases element with
      | empty =>
          cases refused
          rfl
      | scalar kind => cases refused
      | struct id fields =>
          have elementRefused : ofTypeIn none (.struct id fields) = .error fault :=
            ofTypeIn_struct_eq_error_iff.mpr (ofTypeIn_structArray_eq_error_iff.mp refused)
          exact inner elementRefused
      | array =>
          cases refused
          rfl

/-- The tag of a schema is known from the outermost shape of its type. -/
theorem tagOfType_of_ofTypeIn {type : DataType} {field : Option String} {schema : Schema}
    (made : ofTypeIn field type = .ok schema) : tagOfType type = .ok schema.tag := by
  cases type with
  | empty => cases made
  | scalar kind =>
      cases made
      rfl
  | struct name fields =>
      obtain ⟨members, _, rfl⟩ := ofTypeIn_struct_eq_ok_iff.mp made
      rfl
  | array name element length =>
      cases element with
      | empty => cases made
      | scalar kind =>
          cases made
          rfl
      | struct id fields =>
          obtain ⟨members, _, rfl⟩ := ofTypeIn_structArray_eq_ok_iff.mp made
          rfl
      | array => cases made

/-! ## Types of schemas and back -/

theorem exists_memberTypes {members : List (String × Schema)}
    (each : ∀ member ∈ members, ∀ field, ∃ type, member.2.type = .ok type ∧
      ofTypeIn field type = .ok member.2) :
    ∃ types, memberTypes members = .ok types ∧ ofFields types = .ok members := by
  induction members with
  | nil => exact ⟨[], rfl, rfl⟩
  | cons member rest ih =>
      rcases member with ⟨name, schema⟩
      obtain ⟨type, typeEq, made⟩ := each (name, schema) List.mem_cons_self (some name)
      obtain ⟨types, typesEq, madeRest⟩ :=
        ih fun member inside => each member (List.mem_cons_of_mem _ inside)
      exact ⟨(name, type) :: types,
        memberTypes_cons_eq_ok_iff.mpr ⟨type, types, typeEq, typesEq, rfl⟩,
        ofFields_cons_eq_ok_iff.mpr ⟨schema, rest, made, madeRest, rfl⟩⟩

/-- A well-tagged schema without unions describes a type and is the schema of
that type. -/
theorem exists_type {schema : Schema} (tagged : schema.WellTagged) (unionFree : schema.UnionFree)
    (field : Option String) :
    ∃ type, schema.type = .ok type ∧ ofTypeIn field type = .ok schema := by
  induction schema generalizing field with
  | scalar tag =>
      obtain ⟨element, rfl⟩ := tagged.exists_element
      exact ⟨.scalar element.kind, rfl, by simp [ofTypeIn, Tag.ofKind]⟩
  | scalarArray tag name length =>
      obtain ⟨element, rfl⟩ := tagged.exists_arrayElement
      exact ⟨.array name (.scalar element.kind) length, rfl, by simp [ofTypeIn, Tag.arrayOfKind]⟩
  | struct id members each =>
      have innerTagged := Everywhere.members_of_struct tagged
      have innerFree := Everywhere.members_of_struct unionFree
      obtain ⟨types, typesEq, made⟩ := exists_memberTypes fun member inside =>
        each member inside (innerTagged member inside) (innerFree member inside)
      exact ⟨_, type_struct_eq_ok_iff.mpr ⟨types, typesEq, rfl⟩,
        ofTypeIn_struct_eq_ok_iff.mpr ⟨members, made, rfl⟩⟩
  | structArray id members name length each =>
      have innerTagged := Everywhere.members_of_struct (Everywhere.element tagged)
      have innerFree := Everywhere.members_of_struct (Everywhere.element unionFree)
      obtain ⟨types, typesEq, made⟩ := exists_memberTypes fun member inside =>
        each member inside (innerTagged member inside) (innerFree member inside)
      exact ⟨_, type_structArray_eq_ok_iff.mpr ⟨types, typesEq, rfl⟩,
        ofTypeIn_structArray_eq_ok_iff.mpr ⟨members, made, rfl⟩⟩
  | union id members => exact unionFree.1.elim
  | unionArray id members => exact unionFree.1.elim

end ProcessImage.Wire.Schema
