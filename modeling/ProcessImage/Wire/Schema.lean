import ProcessImage.Fault

/-!
# Schemas of the structured protocol

A schema describes every node of a tree: its tag, the identifier of a structure
and its members in order, and the name and fixed length of an array.  Unions
can be described and carried, but no type describes them.

`Schema.ofType` gives the schema of a type, and `Schema.type` the type that a
schema describes.  Names of types become identifiers of structures and names of
arrays.
-/

namespace ProcessImage.Wire

/-- The description of a node and all that is below it.  A scalar node may
bear any tag. -/
inductive Schema where
  | scalar (tag : Tag)
  | scalarArray (tag : Tag) (name : Option String) (length : Option Nat)
  | struct (id : Option String) (members : List (String × Schema))
  | structArray (id : Option String) (members : List (String × Schema))
      (name : Option String) (length : Option Nat)
  | union (id : Option String) (members : List (String × Schema))
  | unionArray (id : Option String) (members : List (String × Schema))
deriving Inhabited

namespace Schema

/-- A property of all schemas follows from the six shapes, where those with
members may rely on the property for each member. -/
@[elab_as_elim, induction_eliminator]
theorem induction {motive : Schema → Prop} (scalar : ∀ tag, motive (.scalar tag))
    (scalarArray : ∀ tag name length, motive (.scalarArray tag name length))
    (struct : ∀ id members, (∀ member ∈ members, motive member.2) → motive (.struct id members))
    (structArray : ∀ id members name length, (∀ member ∈ members, motive member.2) →
      motive (.structArray id members name length))
    (union : ∀ id members, (∀ member ∈ members, motive member.2) → motive (.union id members))
    (unionArray : ∀ id members, (∀ member ∈ members, motive member.2) →
      motive (.unionArray id members))
    (schema : Schema) : motive schema :=
  Schema.rec (motive_1 := motive) (motive_2 := fun members => ∀ member ∈ members, motive member.2)
    (motive_3 := fun member => motive member.2) scalar scalarArray
    (fun id members each => struct id members each)
    (fun id members name length each => structArray id members name length each)
    (fun id members each => union id members each)
    (fun id members each => unionArray id members each) (by simp)
    (fun _ _ first others => by simpa using ⟨first, fun name schema member => others (name, schema) member⟩)
    (fun _ _ inner => inner) schema

/-! ## Equality -/

mutual

/-- Equality of schemas is decided shape by shape. -/
def decideEq : (left right : Schema) → Decidable (left = right)
  | .scalar tag, .scalar tag' =>
      if same : tag = tag' then isTrue (same ▸ rfl) else isFalse (by simp [same])
  | .scalarArray tag name length, .scalarArray tag' name' length' =>
      if same : tag = tag' ∧ name = name' ∧ length = length' then
        isTrue (by rw [same.1, same.2.1, same.2.2])
      else isFalse (by simpa using same)
  | .struct id members, .struct id' members' =>
      if same : id = id' then
        match decideMembersEq members members' with
        | isTrue sameMembers => isTrue (by rw [same, sameMembers])
        | isFalse other => isFalse (by simp [other])
      else isFalse (by simp [same])
  | .structArray id members name length, .structArray id' members' name' length' =>
      if same : id = id' ∧ name = name' ∧ length = length' then
        match decideMembersEq members members' with
        | isTrue sameMembers => isTrue (by rw [same.1, same.2.1, same.2.2, sameMembers])
        | isFalse other => isFalse (by simp [other])
      else
        isFalse (by
          simp only [structArray.injEq]
          exact fun equal => same ⟨equal.1, equal.2.2.1, equal.2.2.2⟩)
  | .union id members, .union id' members' =>
      if same : id = id' then
        match decideMembersEq members members' with
        | isTrue sameMembers => isTrue (by rw [same, sameMembers])
        | isFalse other => isFalse (by simp [other])
      else isFalse (by simp [same])
  | .unionArray id members, .unionArray id' members' =>
      if same : id = id' then
        match decideMembersEq members members' with
        | isTrue sameMembers => isTrue (by rw [same, sameMembers])
        | isFalse other => isFalse (by simp [other])
      else isFalse (by simp [same])
  | .scalar _, .scalarArray .. | .scalar _, .struct .. | .scalar _, .structArray .. => isFalse nofun
  | .scalar _, .union .. | .scalar _, .unionArray .. => isFalse nofun
  | .scalarArray .., .scalar _ | .scalarArray .., .struct .. => isFalse nofun
  | .scalarArray .., .structArray .. | .scalarArray .., .union .. => isFalse nofun
  | .scalarArray .., .unionArray .. => isFalse nofun
  | .struct .., .scalar _ | .struct .., .scalarArray .. | .struct .., .structArray .. => isFalse nofun
  | .struct .., .union .. | .struct .., .unionArray .. => isFalse nofun
  | .structArray .., .scalar _ | .structArray .., .scalarArray .. => isFalse nofun
  | .structArray .., .struct .. | .structArray .., .union .. => isFalse nofun
  | .structArray .., .unionArray .. => isFalse nofun
  | .union .., .scalar _ | .union .., .scalarArray .. | .union .., .struct .. => isFalse nofun
  | .union .., .structArray .. | .union .., .unionArray .. => isFalse nofun
  | .unionArray .., .scalar _ | .unionArray .., .scalarArray .. => isFalse nofun
  | .unionArray .., .struct .. | .unionArray .., .structArray .. => isFalse nofun
  | .unionArray .., .union .. => isFalse nofun

/-- Equality of member lists is decided member by member. -/
def decideMembersEq : (left right : List (String × Schema)) → Decidable (left = right)
  | [], [] => isTrue rfl
  | (name, schema) :: rest, (name', schema') :: rest' =>
      if same : name = name' then
        match decideEq schema schema' with
        | isTrue sameSchema =>
            match decideMembersEq rest rest' with
            | isTrue sameRest => isTrue (by rw [same, sameSchema, sameRest])
            | isFalse other => isFalse (by simp [other])
        | isFalse other => isFalse (by simp [other])
      else isFalse (by simp [same])
  | [], _ :: _ => isFalse nofun
  | _ :: _, [] => isFalse nofun

end

instance : DecidableEq Schema := decideEq

/-! ## Taking schemas apart -/

/-- The tag of a node with the schema. -/
def tag : Schema → Tag
  | scalar tag => tag
  | scalarArray tag _ _ => tag
  | struct .. => .struct
  | structArray .. => .structArray
  | union .. => .union
  | unionArray .. => .unionArray

/-- The first member of a name in the schema of a structure. -/
def member? (schema : Schema) (name : String) : Option Schema :=
  match schema with
  | struct _ members => members.lookup name
  | _ => none

/-! ## From types to schemas -/

mutual

/-- The schema of a type that stands at the top or in a field of a name. -/
def ofTypeIn (field : Option String) : DataType → Except Fault Schema
  | .scalar kind => .ok (.scalar (.ofKind kind))
  | .struct name fields => do
      let members ← ofFields fields
      return .struct name members
  | .array name (.scalar kind) length => .ok (.scalarArray (.arrayOfKind kind) name length)
  | .array name (.struct id fields) length => do
      let members ← ofFields fields
      return .structArray id members name length
  | .array name .empty length => .error (.noWireForm field (.array name .empty length))
  | .array name (.array inner element count) length =>
      .error (.noWireForm field (.array name (.array inner element count) length))
  | .empty => .error (.noWireForm field .empty)

/-- The schemas of fields, in order, as far as the first that has none. -/
def ofFields : List (String × DataType) → Except Fault (List (String × Schema))
  | [] => .ok []
  | (name, type) :: rest => do
      let schema ← ofTypeIn (some name) type
      let others ← ofFields rest
      return (name, schema) :: others

end

/-- The schema of a type.  Nothing, arrays of nothing and arrays of arrays have
none, wherever they occur. -/
def ofType (type : DataType) : Except Fault Schema :=
  ofTypeIn none type

/-- The tag of a type by its outermost shape alone. -/
def tagOfType : DataType → Except Fault Tag
  | .scalar kind => .ok (.ofKind kind)
  | .struct .. => .ok .struct
  | .array _ (.scalar kind) _ => .ok (.arrayOfKind kind)
  | .array _ (.struct ..) _ => .ok .structArray
  | type => .error (.noWireTag type)

/-! ## From schemas to types -/

/-- The kind of data under a tag. -/
def kindOfTag (tag : Tag) : Except Fault Kind :=
  match tag.kind? with
  | some kind => .ok kind
  | none => .error (.noScalarKind tag)

mutual

/-- The type that a schema describes.  There is none for unions. -/
def type : Schema → Except Fault DataType
  | .scalar tag => do
      let kind ← kindOfTag tag
      return .scalar kind
  | .scalarArray tag name length => do
      let kind ← kindOfTag tag
      return .array name (.scalar kind) length
  | .struct id members => do
      let fields ← memberTypes members
      return .struct id fields
  | .structArray id members name length => do
      let fields ← memberTypes members
      return .array name (.struct id fields) length
  | .union .. => .error (.unionSchema .union)
  | .unionArray .. => .error (.unionSchema .unionArray)

/-- The types of members, in order, as far as the first that has none. -/
def memberTypes : List (String × Schema) → Except Fault (List (String × DataType))
  | [] => .ok []
  | (name, schema) :: rest => do
      let first ← schema.type
      let others ← memberTypes rest
      return (name, first) :: others

end

end Schema

/-! ## Schemas member by member -/

/-- The schema of a structure under construction. -/
structure SchemaBuilder where
  id : Option String := none
  members : List (String × Schema) := []

namespace SchemaBuilder

/-- Sets the identifier of the structure. -/
def setId (builder : SchemaBuilder) (id : String) : SchemaBuilder :=
  { builder with id := some id }

/-- Adds a member with any schema. -/
def add (builder : SchemaBuilder) (name : String) (schema : Schema) : SchemaBuilder :=
  { builder with members := builder.members ++ [(name, schema)] }

/-- Adds a scalar member. -/
def addScalar (builder : SchemaBuilder) (name : String) (tag : Tag) : SchemaBuilder :=
  builder.add name (.scalar tag)

/-- Adds a member that holds any number of scalars. -/
def addArray (builder : SchemaBuilder) (name : String) (tag : Tag) : SchemaBuilder :=
  builder.add name (.scalarArray tag none none)

/-- The schema of the structure. -/
def build (builder : SchemaBuilder) : Schema :=
  .struct builder.id builder.members

end SchemaBuilder

end ProcessImage.Wire
