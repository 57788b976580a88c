import ProcessImage.Fault

/-!
# Tags and slots of the legacy protocol

The legacy protocol carries records of equally wide slots, each of one of seven
tags.  It has neither unsigned integers nor integers of 64 bits, so unsigned
integers travel as choices of 16 bits and integers of 64 bits as decimal text.
Truth values, characters and signed bytes share one tag.

The width of a text slot is a matter of configuration.
-/

namespace ProcessImage.Legacy

/-- What a slot holds. -/
inductive Tag where
  | string
  | short
  | float
  | enum
  | char
  | long
  | double
deriving DecidableEq, Repr

namespace Tag

/-- All tags. -/
def all : List Tag := [string, short, float, enum, char, long, double]

/-- Name of the tag. -/
def name : Tag → String
  | string => "String"
  | short => "Short"
  | float => "Float"
  | enum => "Enum"
  | char => "Char"
  | long => "Long"
  | double => "Double"

/-- The tag under which data of a kind travel. -/
def ofKind : Kind → Tag
  | .bool | .integer .char8 | .integer .int8 => char
  | .integer .int16 => short
  | .integer .int32 => long
  | .float32 => float
  | .float64 => double
  | .integer .uint8 | .integer .uint16 | .integer .uint32 => enum
  | .string | .integer .int64 | .integer .uint64 => string

end Tag

/-- Number of bytes that a choice takes. -/
def enumSlotWidth : Nat := 2

/-- Number of bytes that a text takes unless configured otherwise. -/
def defaultStringWidth : Nat := 40

/-- The widths of slots, which depend on that of text alone. -/
structure Layout where
  stringWidth : Nat := defaultStringWidth
deriving DecidableEq, Repr

/-- Number of bytes in a slot of a tag. -/
def Layout.slotWidth (layout : Layout) : Tag → Nat
  | .string => layout.stringWidth
  | .short => 2
  | .float => 4
  | .enum => enumSlotWidth
  | .char => 1
  | .long => 4
  | .double => 8

/-- The scalar kind that records of a type carry.  Only scalars and arrays of
scalars have one. -/
def carriedKind (type : DataType) : Except Fault Kind :=
  match type.elementKind? with
  | some kind => .ok kind
  | none => .error (.noLegacyTag type)

/-- The tag of a type. -/
def tagOfType (type : DataType) : Except Fault Tag :=
  (carriedKind type).map Tag.ofKind

end ProcessImage.Legacy
