import ProcessImage.DataType

/-!
# Structure types field by field

A `StructBuilder` collects named fields and becomes the structure type that has
them in the order in which they were added.
-/

namespace ProcessImage

/-- A structure type under construction. -/
structure StructBuilder where
  name : Option String := none
  fields : List (String × DataType) := []

namespace StructBuilder

/-- A structure that will carry a name. -/
def named (name : String) : StructBuilder := ⟨some name, []⟩

/-- Adds a field of any type. -/
def add (builder : StructBuilder) (name : String) (type : DataType) : StructBuilder :=
  { builder with fields := builder.fields ++ [(name, type)] }

/-- Adds a scalar field. -/
def addScalar (builder : StructBuilder) (name : String) (kind : Kind) : StructBuilder :=
  builder.add name (.scalar kind)

/-- Adds a text field. -/
def addString (builder : StructBuilder) (name : String) : StructBuilder :=
  builder.addScalar name .string

/-- Adds a field that holds any number of scalars. -/
def addArray (builder : StructBuilder) (name : String) (kind : Kind) : StructBuilder :=
  builder.add name (.scalarArray kind)

/-- Adds a field that holds a fixed number of scalars. -/
def addFixedArray (builder : StructBuilder) (name : String) (kind : Kind) (length : Nat) :
    StructBuilder :=
  builder.add name (.fixedArrayOf (.scalar kind) length)

/-- Adds a field that holds any number of elements of a type. -/
def addArrayOf (builder : StructBuilder) (name : String) (element : DataType) : StructBuilder :=
  builder.add name (.arrayOf element)

/-- The structure type. -/
def build (builder : StructBuilder) : DataType :=
  .struct builder.name builder.fields

end StructBuilder

end ProcessImage
