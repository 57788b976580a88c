/-!
# Kinds of scalar data

A scalar datum is a truth value, an integer of one of nine widths, a binary
floating-point number of one of two widths, or text.  The nine integer kinds
differ only in their range and in their name, so they are grouped: a rule
about integers is stated once, for every `IntegerKind`.
-/

namespace ProcessImage

/-- The integer kinds.  A character is a byte that is meant as text. -/
inductive IntegerKind where
  | char8
  | int8
  | uint8
  | int16
  | uint16
  | int32
  | uint32
  | int64
  | uint64
deriving DecidableEq, Repr

namespace IntegerKind

/-- All integer kinds, narrow before wide. -/
def all : List IntegerKind :=
  [char8, int8, uint8, int16, uint16, int32, uint32, int64, uint64]

/-- Number of bytes that hold one integer of the kind. -/
def byteWidth : IntegerKind → Nat
  | char8 | int8 | uint8 => 1
  | int16 | uint16 => 2
  | int32 | uint32 => 4
  | int64 | uint64 => 8

/-- Whether the kind has negative members. -/
def isSigned : IntegerKind → Bool
  | int8 | int16 | int32 | int64 => true
  | char8 | uint8 | uint16 | uint32 | uint64 => false

/-- Least integer of the kind. -/
def least : IntegerKind → Int
  | char8 | uint8 | uint16 | uint32 | uint64 => 0
  | int8 => -128
  | int16 => -32768
  | int32 => -2147483648
  | int64 => -9223372036854775808

/-- Greatest integer of the kind. -/
def greatest : IntegerKind → Int
  | int8 => 127
  | char8 | uint8 => 255
  | int16 => 32767
  | uint16 => 65535
  | int32 => 2147483647
  | uint32 => 4294967295
  | int64 => 9223372036854775807
  | uint64 => 18446744073709551615

/-- An integer belongs to the kind when it lies between its two ends. -/
def Contains (kind : IntegerKind) (number : Int) : Prop :=
  kind.least ≤ number ∧ number ≤ kind.greatest

instance (kind : IntegerKind) (number : Int) : Decidable (kind.Contains number) :=
  inferInstanceAs (Decidable (_ ∧ _))

/-- Zero belongs to every integer kind. -/
theorem contains_zero (kind : IntegerKind) : kind.Contains 0 := by
  cases kind <;> decide

/-- Lower-case name of the kind. -/
def name : IntegerKind → String
  | char8 => "char8"
  | int8 => "int8"
  | uint8 => "uint8"
  | int16 => "int16"
  | uint16 => "uint16"
  | int32 => "int32"
  | uint32 => "uint32"
  | int64 => "int64"
  | uint64 => "uint64"

end IntegerKind

/-- The kinds of scalar data. -/
inductive Kind where
  | bool
  | integer (kind : IntegerKind)
  | float32
  | float64
  | string
deriving DecidableEq, Repr

namespace Kind

/-- All kinds: truth values, integers, floating-point numbers, text. -/
def all : List Kind :=
  bool :: IntegerKind.all.map integer ++ [float32, float64, string]

/-- Number of bytes that one datum takes; text has no fixed size. -/
def byteWidth? : Kind → Option Nat
  | bool => some 1
  | integer kind => some kind.byteWidth
  | float32 => some 4
  | float64 => some 8
  | string => none

/-- Whether the kind is one of the integer kinds. -/
def isInteger : Kind → Bool
  | integer _ => true
  | _ => false

/-- Whether the kind is an integer kind without negative members. -/
def isUnsigned : Kind → Bool
  | integer kind => !kind.isSigned
  | _ => false

/-- Whether the kind is one of the floating-point kinds. -/
def isFloat : Kind → Bool
  | float32 | float64 => true
  | _ => false

/-- Whether the kind is an integer or a floating-point kind. -/
def isNumeric (kind : Kind) : Bool :=
  kind.isInteger || kind.isFloat

/-- Lower-case name of the kind, as it stands in messages. -/
def name : Kind → String
  | bool => "bool"
  | integer kind => kind.name
  | float32 => "float32"
  | float64 => "float64"
  | string => "string"

/-- Every kind occurs in the list of all kinds. -/
theorem mem_all (kind : Kind) : kind ∈ all := by
  cases kind with
  | integer kind => cases kind <;> decide
  | bool => decide
  | float32 => decide
  | float64 => decide
  | string => decide

end Kind

end ProcessImage
