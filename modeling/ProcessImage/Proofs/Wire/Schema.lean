import ProcessImage.Proofs.Outcome
import ProcessImage.Wire.Schema

/-!
# Properties of schemas

Most properties of a schema are properties of every node that it describes.
`Schema.Everywhere` is that quantifier; an array of structures counts with the
structure of its elements.

The type of a well-tagged schema can only be missing because of a union:
`category_of_type_eq_error`.
-/

namespace ProcessImage.Wire.Schema

mutual

/-- A property of all that a schema describes, at any depth. -/
def Everywhere (property : Schema → Prop) : Schema → Prop
  | .scalar tag => property (.scalar tag)
  | .scalarArray tag name length => property (.scalarArray tag name length)
  | .struct id members => property (.struct id members) ∧ MembersEverywhere property members
  | .structArray id members name length =>
      property (.structArray id members name length) ∧ property (.struct id members) ∧
        MembersEverywhere property members
  | .union id members => property (.union id members) ∧ MembersEverywhere property members
  | .unionArray id members =>
      property (.unionArray id members) ∧ property (.union id members) ∧
        MembersEverywhere property members

/-- A property of all that members describe, at any depth. -/
def MembersEverywhere (property : Schema → Prop) : List (String × Schema) → Prop
  | [] => True
  | (_, schema) :: rest => schema.Everywhere property ∧ MembersEverywhere property rest

end

theorem membersEverywhere_iff {property : Schema → Prop} {members : List (String × Schema)} :
    MembersEverywhere property members ↔ ∀ member ∈ members, member.2.Everywhere property := by
  induction members with
  | nil => simp [MembersEverywhere]
  | cons member rest ih => simp [MembersEverywhere, ih]

/-- What holds everywhere in an array of structures holds everywhere in the
structure of its elements. -/
theorem Everywhere.element {property : Schema → Prop} {id : Option String}
    {members : List (String × Schema)} {name : Option String} {length : Option Nat}
    (each : (structArray id members name length).Everywhere property) :
    (struct id members).Everywhere property :=
  each.2

/-- Scalars have tags of scalars, and arrays of scalars have tags of such
arrays. -/
def HasOwnTag : Schema → Prop
  | .scalar tag => tag.isScalar = true
  | .scalarArray tag _ _ => tag.isScalarArray = true
  | _ => True

/-- All scalars have tags of scalars, and all arrays of scalars have tags of
such arrays. -/
def WellTagged : Schema → Prop :=
  Everywhere HasOwnTag

/-- The members of a structure have different names. -/
def HasDistinctMembers : Schema → Prop
  | .struct _ members => (members.map (·.1)).Nodup
  | _ => True

/-- In every structure the members have different names. -/
def DistinctNames : Schema → Prop :=
  Everywhere HasDistinctMembers

/-- A node is no union and no array of unions. -/
def IsNoUnion : Schema → Prop
  | .union .. | .unionArray .. => False
  | _ => True

/-- There are no unions and no arrays of unions. -/
def UnionFree : Schema → Prop :=
  Everywhere IsNoUnion

/-! ## Members of members -/

variable {property : Schema → Prop} {id : Option String} {members : List (String × Schema)}
  {name : Option String} {length : Option Nat}

theorem Everywhere.members_of_struct (each : (struct id members).Everywhere property) :
    ∀ member ∈ members, member.2.Everywhere property :=
  membersEverywhere_iff.mp each.2

theorem Everywhere.members_of_union (each : (union id members).Everywhere property) :
    ∀ member ∈ members, member.2.Everywhere property :=
  membersEverywhere_iff.mp each.2

theorem DistinctNames.names (distinct : (struct id members).DistinctNames) :
    (members.map (·.1)).Nodup :=
  distinct.1

/-! ## Tags -/

theorem WellTagged.exists_element {tag : Tag} (tagged : (scalar tag).WellTagged) :
    ∃ element, tag = .scalar element := by
  cases tag with
  | scalar element => exact ⟨element, rfl⟩
  | _ => exact absurd tagged (by simp [WellTagged, Everywhere, HasOwnTag, Tag.isScalar])

theorem WellTagged.exists_arrayElement {tag : Tag}
    (tagged : (scalarArray tag name length).WellTagged) : ∃ element, tag = .array element := by
  cases tag with
  | array element => exact ⟨element, rfl⟩
  | _ =>
      exact absurd tagged
        (by simp [WellTagged, Everywhere, HasOwnTag, Tag.isScalarArray, Tag.arrayElement?])

/-! ## Types of schemas -/

theorem memberTypes_cons_eq_ok_iff {first : String} {schema : Schema}
    {rest : List (String × Schema)} {types : List (String × DataType)} :
    memberTypes ((first, schema) :: rest) = .ok types ↔
      ∃ type others, schema.type = .ok type ∧ memberTypes rest = .ok others ∧
        (first, type) :: others = types := by
  simp [memberTypes, Outcome.bind_eq_ok_iff]

theorem type_struct_eq_ok_iff {type : DataType} :
    (struct id members).type = .ok type ↔
      ∃ types, memberTypes members = .ok types ∧ .struct id types = type := by
  simp [Schema.type, Outcome.bind_eq_ok_iff]

theorem type_structArray_eq_ok_iff {type : DataType} :
    (structArray id members name length).type = .ok type ↔
      ∃ types, memberTypes members = .ok types ∧ .array name (.struct id types) length = type := by
  simp [Schema.type, Outcome.bind_eq_ok_iff]

theorem type_struct_eq_error_iff {fault : Fault} :
    (struct id members).type = .error fault ↔ memberTypes members = .error fault := by
  cases types : memberTypes members <;> simp [Schema.type, types]

theorem type_structArray_eq_error_iff {fault : Fault} :
    (structArray id members name length).type = .error fault ↔
      memberTypes members = .error fault := by
  cases types : memberTypes members <;> simp [Schema.type, types]

theorem membersUnionFree_of_memberTypes {types : List (String × DataType)}
    (each : ∀ member ∈ members, ∀ type, member.2.type = .ok type → member.2.UnionFree)
    (typed : memberTypes members = .ok types) : MembersEverywhere IsNoUnion members := by
  induction members generalizing types with
  | nil => trivial
  | cons member rest ih =>
      obtain ⟨type, others, first, later, _⟩ := memberTypes_cons_eq_ok_iff.mp typed
      constructor
      · exact each member List.mem_cons_self type first
      · exact ih (fun member inside => each member (List.mem_cons_of_mem _ inside)) later

/-- A schema that describes a type contains no unions. -/
theorem unionFree_of_type {schema : Schema} {type : DataType} (typed : schema.type = .ok type) :
    schema.UnionFree := by
  induction schema generalizing type with
  | scalar tag => trivial
  | scalarArray tag name length => trivial
  | struct id members each =>
      obtain ⟨types, typesEq, _⟩ := type_struct_eq_ok_iff.mp typed
      exact ⟨trivial, membersUnionFree_of_memberTypes (fun member inside type => each member inside)
        typesEq⟩
  | structArray id members name length each =>
      obtain ⟨types, typesEq, _⟩ := type_structArray_eq_ok_iff.mp typed
      exact ⟨trivial, trivial, membersUnionFree_of_memberTypes
        (fun member inside type => each member inside) typesEq⟩
  | union id members => cases typed
  | unionArray id members => cases typed

/-- When the types of members are missing, then that of the first member or
those of the others are. -/
theorem memberTypes_cons_eq_error_iff {first : String} {schema : Schema}
    {rest : List (String × Schema)} {fault : Fault} :
    memberTypes ((first, schema) :: rest) = .error fault ↔
      schema.type = .error fault ∨
        (∃ type, schema.type = .ok type) ∧ memberTypes rest = .error fault := by
  cases typed : schema.type with
  | error _ => simp [memberTypes, typed]
  | ok type => cases others : memberTypes rest <;> simp [memberTypes, typed, others]

theorem category_of_memberTypes_eq_error {fault : Fault}
    (each : ∀ member ∈ members, ∀ fault, member.2.type = .error fault →
      fault.category = .unsupportedShape)
    (failed : memberTypes members = .error fault) : fault.category = .unsupportedShape := by
  induction members with
  | nil => cases failed
  | cons member rest ih =>
      rcases memberTypes_cons_eq_error_iff.mp failed with first | ⟨_, others⟩
      · exact each member List.mem_cons_self fault first
      · exact ih (fun member inRest => each member (List.mem_cons_of_mem _ inRest)) others

/-- A well-tagged schema has a type unless it contains a shape that is not
supported. -/
theorem category_of_type_eq_error {schema : Schema} {fault : Fault} (tagged : schema.WellTagged)
    (failed : schema.type = .error fault) : fault.category = .unsupportedShape := by
  induction schema generalizing fault with
  | scalar tag =>
      obtain ⟨element, rfl⟩ := tagged.exists_element
      cases failed
  | scalarArray tag name length =>
      obtain ⟨element, rfl⟩ := tagged.exists_arrayElement
      cases failed
  | struct id members each =>
      have inner := Everywhere.members_of_struct tagged
      exact category_of_memberTypes_eq_error
        (fun member inside fault => each member inside (inner member inside))
        (type_struct_eq_error_iff.mp failed)
  | structArray id members name length each =>
      have inner := Everywhere.members_of_struct (Everywhere.element tagged)
      exact category_of_memberTypes_eq_error
        (fun member inside fault => each member inside (inner member inside))
        (type_structArray_eq_error_iff.mp failed)
  | union id members =>
      cases failed
      rfl
  | unionArray id members =>
      cases failed
      rfl

end ProcessImage.Wire.Schema
