import ProcessImage.Kind
import ProcessImage.Ieee.Shortest
import ProcessImage.Text.Decimal

/-!
# Scalar data

A `Scalar` is one datum of one kind.  An integer datum carries the proof that
it belongs to its kind, so no operation of this library can produce an integer
out of range.  The views below read a datum as a number, as an integer or as
text.
-/

namespace ProcessImage

/-- One datum. -/
inductive Scalar where
  | bool (truth : Bool)
  | integer (kind : IntegerKind) (number : Int) (member : kind.Contains number)
  | float32 (number : Ieee.Binary32)
  | float64 (number : Ieee.Binary64)
  | string (text : String)
deriving DecidableEq

namespace Scalar

/-- The kind of a datum. -/
def kind : Scalar → Kind
  | bool _ => .bool
  | integer kind _ _ => .integer kind
  | float32 _ => .float32
  | float64 _ => .float64
  | string _ => .string

/-- The datum that an integer is in an integer kind, when it belongs to it. -/
def ofInt? (kind : IntegerKind) (number : Int) : Option Scalar :=
  if member : kind.Contains number then some (integer kind number member) else none

/-- The datum of a kind that stands for nothing said: false, zero or no text. -/
def zeroOf : Kind → Scalar
  | .bool => bool false
  | .integer kind => integer kind 0 kind.contains_zero
  | .float32 => float32 .zero
  | .float64 => float64 .zero
  | .string => string ""

/-- The zero of a kind has that kind. -/
@[simp]
theorem kind_zeroOf (kind : Kind) : (zeroOf kind).kind = kind := by
  cases kind <;> rfl

/-- A datum as a wide floating-point number; text has no such view. -/
def toFloat? : Scalar → Option Ieee.Binary64
  | bool truth => some (if truth then .one else .zero)
  | integer _ number _ => some (.ofInt number)
  | float32 number => some (number.convert Ieee.binary64)
  | float64 number => some number
  | string _ => none

/-- A datum as an integer; numbers with a fraction and text have no such view. -/
def toInt? : Scalar → Option Int
  | bool truth => some (if truth then 1 else 0)
  | integer _ number _ => some number
  | float32 number => Ieee.exactInteger? (number.convert Ieee.binary64)
  | float64 number => Ieee.exactInteger? number
  | string _ => none

/-- The truth value that a datum is. -/
def truth? : Scalar → Option Bool
  | bool truth => some truth
  | _ => none

/-- The text that a datum is. -/
def string? : Scalar → Option String
  | string text => some text
  | _ => none

/-- The text in which a datum travels where only text can. -/
def text : Scalar → String
  | bool truth => if truth then "1" else "0"
  | integer _ number _ => Text.writeInt number
  | float32 number => number.text
  | float64 number => number.text
  | string text => text

/-- Comparison of data as numbers: both zeros are equal, and a not-a-number
equals nothing. -/
def numericEq : Scalar → Scalar → Bool
  | float32 left, float32 right => left.numericEq right
  | float64 left, float64 right => left.numericEq right
  | left, right => decide (left = right)

end Scalar

end ProcessImage
