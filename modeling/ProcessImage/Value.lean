import ProcessImage.DataType
import ProcessImage.Scalar

/-!
# Values

A `Value` is what an application reads and writes: nothing, one scalar, a
structure of named fields, or an array.  An array carries the type of its
elements and its declared length, so an empty array keeps its type.

Values are data as they come: neither are field names of a structure distinct
by construction, nor do the elements of an array have to agree with its element
type or length.  `Value.typeOf` is the type that a value announces, and
`Value.defaultOf` is the value of a type that holds nothing but zeros.
-/

namespace ProcessImage

/-- A value of any type. -/
inductive Value where
  | empty
  | scalar (datum : Scalar)
  | struct (name : Option String) (fields : List (String × Value))
  | array (name : Option String) (element : DataType) (length : Option Nat)
      (elements : List Value)
deriving Inhabited

namespace Value

/-- A property of all values follows from the four shapes, where structures and
arrays may rely on the property for what they hold. -/
@[elab_as_elim, induction_eliminator]
theorem induction {motive : Value → Prop} (empty : motive .empty)
    (scalar : ∀ datum, motive (.scalar datum))
    (struct : ∀ name fields, (∀ field ∈ fields, motive field.2) → motive (.struct name fields))
    (array : ∀ name element length elements, (∀ value ∈ elements, motive value) →
      motive (.array name element length elements))
    (value : Value) : motive value :=
  Value.rec (motive_1 := motive) (motive_2 := fun fields => ∀ field ∈ fields, motive field.2)
    (motive_3 := fun elements => ∀ value ∈ elements, motive value)
    (motive_4 := fun field => motive field.2) empty scalar
    (fun name fields each => struct name fields each)
    (fun name element length elements each => array name element length elements each) (by simp)
    (fun _ _ first others => by simpa using ⟨first, fun name value member => others (name, value) member⟩)
    (by simp) (fun _ _ first others => by simpa using ⟨first, others⟩)
    (fun _ _ inner => inner) value

/-! ## Types of values and values of types -/

mutual

/-- The type that a value announces.  The elements of an array do not count:
their type is the declared one. -/
def typeOf : Value → DataType
  | .empty => .empty
  | .scalar datum => .scalar datum.kind
  | .struct name fields => .struct name (fieldTypes fields)
  | .array name element length _ => .array name element length

/-- The types of fields, with their names. -/
def fieldTypes : List (String × Value) → List (String × DataType)
  | [] => []
  | (name, value) :: rest => (name, value.typeOf) :: fieldTypes rest

end

mutual

/-- The value of a type that holds only zeros and empty texts.  An array has
its fixed number of elements, or none. -/
def defaultOf : DataType → Value
  | .empty => .empty
  | .scalar kind => .scalar (.zeroOf kind)
  | .struct name fields => .struct name (defaultFields fields)
  | .array name element length =>
      .array name element length (List.replicate (length.getD 0) (defaultOf element))

/-- Default values of fields, with their names. -/
def defaultFields : List (String × DataType) → List (String × Value)
  | [] => []
  | (name, type) :: rest => (name, defaultOf type) :: defaultFields rest

end

/-- The field types are the types of the fields. -/
theorem fieldTypes_eq_map (fields : List (String × Value)) :
    fieldTypes fields = fields.map fun field => (field.1, field.2.typeOf) := by
  induction fields with
  | nil => rfl
  | cons field rest ih => simp [fieldTypes, ih]

/-- The default fields are the defaults of the fields. -/
theorem defaultFields_eq_map (fields : List (String × DataType)) :
    defaultFields fields = fields.map fun field => (field.1, defaultOf field.2) := by
  induction fields with
  | nil => rfl
  | cons field rest ih => simp [defaultFields, ih]

/-- The default of a type has that type. -/
@[simp]
theorem typeOf_defaultOf (type : DataType) : (defaultOf type).typeOf = type := by
  induction type with
  | empty => rfl
  | scalar kind => simp [defaultOf, typeOf]
  | struct name fields each =>
      have same : fields.map ((fun field => (field.1, field.2.typeOf)) ∘
          fun field => (field.1, defaultOf field.2)) = fields.map id :=
        List.map_congr_left fun field member => by simp [each field member]
      simp [defaultOf, typeOf, fieldTypes_eq_map, defaultFields_eq_map, same]
  | array name element length inner => rfl

/-- The array of any number of scalars of one kind. -/
def ofScalars (kind : Kind) (data : List Scalar) : Value :=
  .array none (.scalar kind) none (data.map .scalar)

/-! ## Taking values apart -/

/-- Whether there is no value. -/
def isEmpty : Value → Bool
  | empty => true
  | _ => false

/-- The datum that a value is. -/
def scalar? : Value → Option Scalar
  | scalar datum => some datum
  | _ => none

/-- The fields of a structure. -/
def fields? : Value → Option (List (String × Value))
  | struct _ fields => some fields
  | _ => none

/-- The elements of an array. -/
def elements? : Value → Option (List Value)
  | array _ _ _ elements => some elements
  | _ => none

/-- The first field of a name. -/
def field? (value : Value) (name : String) : Option Value :=
  value.fields?.bind (·.lookup name)

/-- A scalar as a floating-point number. -/
def toFloat? (value : Value) : Option Ieee.Binary64 :=
  value.scalar?.bind Scalar.toFloat?

/-- A scalar as an integer of 64 bits with a sign. -/
def toInt64? (value : Value) : Option Int :=
  (value.scalar?.bind Scalar.toInt?).filter fun number =>
    decide (IntegerKind.int64.Contains number)

/-- The truth value that a scalar is. -/
def truth? (value : Value) : Option Bool :=
  value.scalar?.bind Scalar.truth?

/-- The text that a scalar is. -/
def string? (value : Value) : Option String :=
  value.scalar?.bind Scalar.string?

/-! ## Comparison as numbers -/

mutual

/-- Comparison that takes floating-point data as numbers, and names, types and
lengths as they are. -/
def numericEq : Value → Value → Bool
  | .empty, .empty => true
  | .scalar left, .scalar right => left.numericEq right
  | .struct name fields, .struct name' fields' => name == name' && fieldsNumericEq fields fields'
  | .array name element length elements, .array name' element' length' elements' =>
      name == name' && decide (element = element') && length == length' &&
        elementsNumericEq elements elements'
  | _, _ => false

/-- Comparison of field lists: names as they are, values as numbers. -/
def fieldsNumericEq : List (String × Value) → List (String × Value) → Bool
  | [], [] => true
  | (name, value) :: rest, (name', value') :: rest' =>
      name == name' && numericEq value value' && fieldsNumericEq rest rest'
  | _, _ => false

/-- Comparison of elements one by one. -/
def elementsNumericEq : List Value → List Value → Bool
  | [], [] => true
  | value :: rest, value' :: rest' => numericEq value value' && elementsNumericEq rest rest'
  | _, _ => false

end

end Value

end ProcessImage
