import ProcessImage.Kind

/-!
# Tags of the structured protocol

The structured protocol tags every node of a tree.  A scalar and an array of
scalars have tags of their own for each of twelve elements.  The elements are
the scalar kinds, except that characters travel as unsigned bytes: the byte
survives, its meaning as a character does not.
-/

namespace ProcessImage.Wire

/-- What one scalar on the wire is. -/
inductive Element where
  | boolean
  | byte
  | ubyte
  | short
  | ushort
  | int
  | uint
  | long
  | ulong
  | float
  | double
  | string
deriving DecidableEq, Repr

namespace Element

/-- All elements. -/
def all : List Element :=
  [boolean, byte, ubyte, short, ushort, int, uint, long, ulong, float, double, string]

/-- Name of the element. -/
def name : Element → String
  | boolean => "Boolean"
  | byte => "Byte"
  | ubyte => "UByte"
  | short => "Short"
  | ushort => "UShort"
  | int => "Int"
  | uint => "UInt"
  | long => "Long"
  | ulong => "ULong"
  | float => "Float"
  | double => "Double"
  | string => "String"

/-- The kind of data that an element carries. -/
def kind : Element → Kind
  | boolean => .bool
  | byte => .integer .int8
  | ubyte => .integer .uint8
  | short => .integer .int16
  | ushort => .integer .uint16
  | int => .integer .int32
  | uint => .integer .uint32
  | long => .integer .int64
  | ulong => .integer .uint64
  | float => .float32
  | double => .float64
  | string => .string

/-- The element as which data of a kind travel. -/
def ofKind : Kind → Element
  | .bool => boolean
  | .integer .char8 => ubyte
  | .integer .int8 => byte
  | .integer .uint8 => ubyte
  | .integer .int16 => short
  | .integer .uint16 => ushort
  | .integer .int32 => int
  | .integer .uint32 => uint
  | .integer .int64 => long
  | .integer .uint64 => ulong
  | .float32 => float
  | .float64 => double
  | .string => string

/-- An element is found again from its kind. -/
@[simp]
theorem ofKind_kind (element : Element) : ofKind element.kind = element := by
  cases element <;> rfl

/-- A kind is found again from its element, but for characters. -/
theorem kind_ofKind {kind : Kind} (distinct : kind ≠ .integer .char8) :
    (ofKind kind).kind = kind := by
  cases kind with
  | integer kind =>
      cases kind with
      | char8 => exact absurd rfl distinct
      | _ => rfl
  | _ => rfl

/-- No element carries characters. -/
theorem kind_ne_char8 (element : Element) : element.kind ≠ .integer .char8 := by
  cases element <;> decide

end Element

/-- The tag of a node. -/
inductive Tag where
  | scalar (element : Element)
  | array (element : Element)
  | struct
  | structArray
  | union
  | unionArray
deriving DecidableEq, Repr

namespace Tag

/-- All tags: scalars, arrays of scalars, then the others. -/
def all : List Tag :=
  Element.all.map scalar ++ Element.all.map array ++ [struct, structArray, union, unionArray]

/-- Name of the tag, as it stands in messages. -/
def name : Tag → String
  | scalar element => element.name
  | array element => element.name ++ "Array"
  | struct => "Structure"
  | structArray => "StructureArray"
  | union => "Union"
  | unionArray => "UnionArray"

/-- Whether the tag is that of a scalar. -/
def isScalar : Tag → Bool
  | scalar _ => true
  | _ => false

/-- The element of the tag of an array of scalars. -/
def arrayElement? : Tag → Option Element
  | array element => some element
  | _ => none

/-- Whether the tag is that of an array of scalars. -/
def isScalarArray (tag : Tag) : Bool :=
  tag.arrayElement?.isSome

/-- The kind of data under the tag of a scalar or of an array of scalars. -/
def kind? : Tag → Option Kind
  | scalar element | array element => some element.kind
  | _ => none

/-- The tag of a scalar of a kind. -/
def ofKind (kind : Kind) : Tag :=
  scalar (.ofKind kind)

/-- The tag of an array of scalars of a kind. -/
def arrayOfKind (kind : Kind) : Tag :=
  array (.ofKind kind)

end Tag

end ProcessImage.Wire
