import ProcessImage.Value
import ProcessImage.Scalar.Conversion

/-!
# Fitting values to types

A value fits a type when every scalar in it converts to the kind that the type
wants there.  One scalar fits an array type as its only element, an array of
one element fits a scalar type, and a structure fits by the names of its
fields: the result has the fields of the type in the order of the type, and
fields that the type does not name are dropped.
-/

namespace ProcessImage

namespace Value

/-- A scalar of a kind made from a scalar or from the only element of an
array. -/
def coerceScalar? (kind : Kind) : Value → Option Value
  | .scalar datum => (datum.convert? kind).map .scalar
  | .array _ _ _ [only] => coerceScalar? kind only
  | _ => none

/-- The values that an array may be made from: its elements, or one scalar. -/
def members? : Value → Option (List Value)
  | .array _ _ _ elements => some elements
  | .scalar datum => some [.scalar datum]
  | _ => none

/-- Whether a number of elements exceeds a fixed length. -/
def exceeds (count : Nat) : Option Nat → Bool
  | some length => length < count
  | none => false

mutual

/-- The value in a type, when all its parts convert. -/
def coerce? : DataType → Value → Option Value
  | .empty, value => if value.isEmpty then some .empty else none
  | .scalar kind, value => value.coerceScalar? kind
  | .struct name fields, value => do
      let source ← value.fields?
      let converted ← coerceFields? fields source
      return .struct name converted
  | .array name element length, value => do
      let source ← value.members?
      if exceeds source.length length then none
      else
        let elements ← source.mapM (coerce? element)
        return .array name element length elements

/-- The fields of a type, each made from the first source field of its name. -/
def coerceFields? : List (String × DataType) → List (String × Value) →
    Option (List (String × Value))
  | [], _ => some []
  | (name, type) :: rest, source => do
      let value ← source.lookup name
      let converted ← coerce? type value
      let others ← coerceFields? rest source
      return (name, converted) :: others

end

end Value

end ProcessImage
