import ProcessImage.Kind

/-!
# Types of values

A `DataType` describes a value: nothing, one scalar, a structure of named
fields in order, or an array of elements of one type.  Structures and arrays
may carry a name, and an array may have a fixed length.

Field names need not be distinct; a look-up finds the first field of a name.
-/

namespace ProcessImage

/-- The type of a value. -/
inductive DataType where
  | empty
  | scalar (kind : Kind)
  | struct (name : Option String) (fields : List (String × DataType))
  | array (name : Option String) (element : DataType) (length : Option Nat)
deriving Inhabited

namespace DataType

/-- A property of all types follows from the four shapes, where a structure may
rely on the property for the type of each of its fields. -/
@[elab_as_elim, induction_eliminator]
theorem induction {motive : DataType → Prop} (empty : motive .empty)
    (scalar : ∀ kind, motive (.scalar kind))
    (struct : ∀ name fields, (∀ field ∈ fields, motive field.2) → motive (.struct name fields))
    (array : ∀ name element length, motive element → motive (.array name element length))
    (type : DataType) : motive type :=
  DataType.rec (motive_1 := motive) (motive_2 := fun fields => ∀ field ∈ fields, motive field.2)
    (motive_3 := fun field => motive field.2) empty scalar (fun name fields each => struct name fields each)
    (fun name element length inner => array name element length inner) (by simp)
    (fun _ _ first others => by simpa using ⟨first, fun name type member => others (name, type) member⟩)
    (fun _ _ inner => inner) type

/-! ## Equality -/

mutual

/-- Equality of types is decided shape by shape. -/
def decideEq : (left right : DataType) → Decidable (left = right)
  | .empty, .empty => isTrue rfl
  | .scalar left, .scalar right =>
      if same : left = right then isTrue (same ▸ rfl) else isFalse (by simp [same])
  | .struct name fields, .struct name' fields' =>
      if same : name = name' then
        match decideFieldsEq fields fields' with
        | isTrue sameFields => isTrue (by rw [same, sameFields])
        | isFalse other => isFalse (by simp [other])
      else isFalse (by simp [same])
  | .array name element length, .array name' element' length' =>
      if same : name = name' ∧ length = length' then
        match decideEq element element' with
        | isTrue sameElement => isTrue (by rw [same.1, same.2, sameElement])
        | isFalse other => isFalse (by simp [other])
      else isFalse (by simp only [array.injEq]; exact fun equal => same ⟨equal.1, equal.2.2⟩)
  | .empty, .scalar _ | .empty, .struct .. | .empty, .array .. => isFalse nofun
  | .scalar _, .empty | .scalar _, .struct .. | .scalar _, .array .. => isFalse nofun
  | .struct .., .empty | .struct .., .scalar _ | .struct .., .array .. => isFalse nofun
  | .array .., .empty | .array .., .scalar _ | .array .., .struct .. => isFalse nofun

/-- Equality of field lists is decided field by field. -/
def decideFieldsEq : (left right : List (String × DataType)) → Decidable (left = right)
  | [], [] => isTrue rfl
  | (name, type) :: rest, (name', type') :: rest' =>
      if same : name = name' then
        match decideEq type type' with
        | isTrue sameType =>
            match decideFieldsEq rest rest' with
            | isTrue sameRest => isTrue (by rw [same, sameType, sameRest])
            | isFalse other => isFalse (by simp [other])
        | isFalse other => isFalse (by simp [other])
      else isFalse (by simp [same])
  | [], _ :: _ => isFalse nofun
  | _ :: _, [] => isFalse nofun

end

instance : DecidableEq DataType := decideEq

/-! ## Making types -/

/-- An array of the given elements with any number of them. -/
def arrayOf (element : DataType) : DataType :=
  array none element none

/-- An array of the given elements with a fixed number of them. -/
def fixedArrayOf (element : DataType) (length : Nat) : DataType :=
  array none element (some length)

/-- An array of scalars of one kind. -/
def scalarArray (kind : Kind) : DataType :=
  arrayOf (scalar kind)

/-! ## Taking types apart -/

/-- Whether the type is that of no value. -/
def isEmpty : DataType → Bool
  | empty => true
  | _ => false

/-- Whether the type is that of one scalar. -/
def isScalar : DataType → Bool
  | scalar _ => true
  | _ => false

/-- Whether the type is a structure. -/
def isStruct : DataType → Bool
  | struct .. => true
  | _ => false

/-- Whether the type is an array. -/
def isArray : DataType → Bool
  | array .. => true
  | _ => false

/-- The kind of a scalar type. -/
def scalarKind? : DataType → Option Kind
  | scalar kind => some kind
  | _ => none

/-- The kind of a scalar type or of the elements of a scalar array. -/
def elementKind? : DataType → Option Kind
  | scalar kind => some kind
  | array _ element _ => element.scalarKind?
  | _ => none

/-- The name that a structure or an array carries. -/
def name? : DataType → Option String
  | struct name _ => name
  | array name _ _ => name
  | _ => none

/-- The fields of a structure. -/
def fields? : DataType → Option (List (String × DataType))
  | struct _ fields => some fields
  | _ => none

/-- The type of the first field of a name. -/
def field? (type : DataType) (name : String) : Option DataType :=
  type.fields?.bind (·.lookup name)

/-- The position of the first field of a name. -/
def fieldIndex? (type : DataType) (name : String) : Option Nat :=
  type.fields?.bind (·.findIdx? (·.1 == name))

/-- The type of the elements of an array. -/
def element? : DataType → Option DataType
  | array _ element _ => some element
  | _ => none

/-! ## Written types -/

/-- A short description: neither fields nor lengths. -/
def brief : DataType → String
  | empty => "empty"
  | scalar kind => kind.name
  | struct (some name) _ => "struct " ++ name
  | struct none _ => "struct"
  | array _ element _ => element.brief ++ "[]"

mutual

/-- The whole type, with all fields and lengths. -/
def text : DataType → String
  | .empty => "empty"
  | .scalar kind => kind.name
  | .struct name fields =>
      "struct" ++ (match name with | some name => " " ++ name | none => "") ++
        " \x7b" ++ String.intercalate "," (fieldTexts fields) ++ " \x7d"
  | .array _ element length =>
      element.text ++ "[" ++ (match length with | some length => toString length | none => "") ++ "]"

/-- Fields as they stand in the text of a structure. -/
def fieldTexts : List (String × DataType) → List String
  | [] => []
  | (name, type) :: rest => (" " ++ name ++ ": " ++ type.text) :: fieldTexts rest

end

end DataType

end ProcessImage
