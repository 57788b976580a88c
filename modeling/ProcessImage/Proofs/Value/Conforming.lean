import ProcessImage.Value

/-!
# Conforming values

A value conforms when it keeps what it announces and its type can travel: the
fields of a structure have different names, the elements of an array are of the
declared type and as many as declared, and there is neither nothing nor an array
of arrays anywhere in its type.

Characters travel as bytes.  `charsAsBytes` replaces them and leaves the rest as
it is.
-/

namespace ProcessImage

/-! ## Types that can travel -/

namespace DataType

mutual

/-- Whether a type contains neither nothing nor arrays of nothing or of arrays,
at any depth. -/
def HasWireForm : DataType → Prop
  | .empty => False
  | .scalar _ => True
  | .struct _ fields => FieldsHaveWireForm fields
  | .array _ element _ => element.isArray = false ∧ element.HasWireForm

/-- Whether all types of fields can travel. -/
def FieldsHaveWireForm : List (String × DataType) → Prop
  | [] => True
  | (_, type) :: rest => type.HasWireForm ∧ FieldsHaveWireForm rest

end

end DataType

/-! ## Characters as bytes -/

/-- The kind as which data of a kind arrive. -/
def Kind.charsAsBytes : Kind → Kind
  | .integer .char8 => .integer .uint8
  | kind => kind

/-- A character as a byte, and all else as it is. -/
def Scalar.charsAsBytes : Scalar → Scalar
  | .integer .char8 number member => .integer .uint8 number member
  | datum => datum

theorem Scalar.kind_charsAsBytes (datum : Scalar) :
    datum.charsAsBytes.kind = datum.kind.charsAsBytes := by
  cases datum with
  | integer kind number member => cases kind <;> rfl
  | _ => rfl

namespace DataType

mutual

/-- The type with bytes for characters. -/
def charsAsBytes : DataType → DataType
  | .empty => .empty
  | .scalar kind => .scalar kind.charsAsBytes
  | .struct name fields => .struct name (fieldsCharsAsBytes fields)
  | .array name element length => .array name element.charsAsBytes length

/-- The types of fields with bytes for characters. -/
def fieldsCharsAsBytes : List (String × DataType) → List (String × DataType)
  | [] => []
  | (name, type) :: rest => (name, type.charsAsBytes) :: fieldsCharsAsBytes rest

end

end DataType

namespace Value

mutual

/-- The value with bytes for characters. -/
def charsAsBytes : Value → Value
  | .empty => .empty
  | .scalar datum => .scalar datum.charsAsBytes
  | .struct name fields => .struct name (fieldsCharsAsBytes fields)
  | .array name element length elements =>
      .array name element.charsAsBytes length (allCharsAsBytes elements)

/-- Fields with bytes for characters. -/
def fieldsCharsAsBytes : List (String × Value) → List (String × Value)
  | [] => []
  | (name, value) :: rest => (name, value.charsAsBytes) :: fieldsCharsAsBytes rest

/-- Values with bytes for characters. -/
def allCharsAsBytes : List Value → List Value
  | [] => []
  | value :: rest => value.charsAsBytes :: allCharsAsBytes rest

end

theorem allCharsAsBytes_eq_map (values : List Value) :
    allCharsAsBytes values = values.map charsAsBytes := by
  induction values with
  | nil => rfl
  | cons value rest ih => simp [allCharsAsBytes, ih]

theorem fieldsCharsAsBytes_eq_map (fields : List (String × Value)) :
    fieldsCharsAsBytes fields = fields.map fun field => (field.1, field.2.charsAsBytes) := by
  induction fields with
  | nil => rfl
  | cons field rest ih => simp [fieldsCharsAsBytes, ih]

/-- Replacing characters in a value replaces them in its type. -/
theorem typeOf_charsAsBytes (value : Value) :
    value.charsAsBytes.typeOf = value.typeOf.charsAsBytes := by
  induction value with
  | empty => rfl
  | scalar datum => simp [charsAsBytes, typeOf, DataType.charsAsBytes, Scalar.kind_charsAsBytes]
  | struct name fields each =>
      have same : fieldTypes (fieldsCharsAsBytes fields) =
          DataType.fieldsCharsAsBytes (fieldTypes fields) := by
        induction fields with
        | nil => rfl
        | cons field rest ih =>
            have first := each field List.mem_cons_self
            have later := ih fun field inside => each field (List.mem_cons_of_mem _ inside)
            simp [fieldsCharsAsBytes, fieldTypes, DataType.fieldsCharsAsBytes, first, later]
      simp [charsAsBytes, typeOf, DataType.charsAsBytes, same]
  | array name element length elements => rfl

/-! ## Values that keep what they announce -/

mutual

/-- Whether, at any depth, the fields of a structure have different names, and
the elements of an array have the declared type and number. -/
def Regular : Value → Prop
  | .empty => True
  | .scalar _ => True
  | .struct _ fields => (fields.map (·.1)).Nodup ∧ FieldsRegular fields
  | .array _ element length elements =>
      (∀ count ∈ length, elements.length = count) ∧ ElementsRegular element elements

/-- Whether the values of all fields keep what they announce. -/
def FieldsRegular : List (String × Value) → Prop
  | [] => True
  | (_, value) :: rest => value.Regular ∧ FieldsRegular rest

/-- Whether all elements have the given type and keep what they announce. -/
def ElementsRegular (element : DataType) : List Value → Prop
  | [] => True
  | value :: rest => value.typeOf = element ∧ value.Regular ∧ ElementsRegular element rest

end

theorem fieldsRegular_iff {fields : List (String × Value)} :
    FieldsRegular fields ↔ ∀ field ∈ fields, field.2.Regular := by
  induction fields with
  | nil => simp [FieldsRegular]
  | cons field rest ih => simp [FieldsRegular, ih]

theorem elementsRegular_iff {element : DataType} {elements : List Value} :
    ElementsRegular element elements ↔
      ∀ value ∈ elements, value.typeOf = element ∧ value.Regular := by
  induction elements with
  | nil => simp [ElementsRegular]
  | cons value rest ih => simp [ElementsRegular, ih, and_assoc]

/-- Whether a value keeps what it announces and is of a type that can travel. -/
structure Conforming (value : Value) : Prop where
  wireForm : value.typeOf.HasWireForm
  regular : value.Regular

end Value

end ProcessImage
