import ProcessImage.Scalar
import ProcessImage.Ieee.Literal
import ProcessImage.Text.Blank

/-!
# Conversion between scalar kinds

A conversion is checked against the range of its target: a number that does
not fit has no conversion, and nothing wraps or saturates.  Floating-point
numbers lose their fraction on the way to an integer kind.  Text is read
without the blanks around it.
-/

namespace ProcessImage

/-- Integers that text may write directly; others are read as floating-point
numbers. -/
def Text.readsAsInt (number : Int) : Prop :=
  -(Nat.pow 2 127 : Nat) ≤ number ∧ number < (Nat.pow 2 127 : Nat)

instance (number : Int) : Decidable (Text.readsAsInt number) :=
  inferInstanceAs (Decidable (_ ∧ _))

/-- The integer that a trimmed text writes, when it is an integer literal. -/
def Text.literalInt? (characters : List Char) : Option Int :=
  (Text.readInt? characters).filter fun number => decide (Text.readsAsInt number)

/-- The truth value that a trimmed text writes: one of the usual words, or a
number that is or is not zero. -/
def Text.truth? (characters : List Char) : Option Bool :=
  if characters ∈ ["true".toList, "TRUE".toList, "True".toList, "1".toList] then some true
  else if characters ∈ ["false".toList, "FALSE".toList, "False".toList, "0".toList] then
    some false
  else (Ieee.readNumber? characters).map Ieee.Number.isNonzero

namespace Scalar

/-- The number that a datum stands for; text is read. -/
def numeric? : Scalar → Option Ieee.Binary64
  | string text => Ieee.readNumber? (Text.trim text.toList)
  | datum => datum.toFloat?

/-- The integer that a datum stands for; fractions are dropped, text is read. -/
def integral? : Scalar → Option Int
  | string text =>
      let characters := Text.trim text.toList
      match Text.literalInt? characters with
      | some number => some number
      | none => (Ieee.readNumber? characters).bind Ieee.integerPart?
  | float32 number => Ieee.integerPart? (number.convert Ieee.binary64)
  | float64 number => Ieee.integerPart? number
  | datum => datum.toInt?

/-- The truth value that a datum stands for; text is read. -/
def nonzero? : Scalar → Option Bool
  | string text => Text.truth? (Text.trim text.toList)
  | datum => datum.toFloat?.map Ieee.Number.isNonzero

/-- The same datum in another kind, when it fits there. -/
def convert? (datum : Scalar) (target : Kind) : Option Scalar :=
  if datum.kind = target then some datum
  else
    match target with
    | .string => some (string datum.text)
    | .bool => datum.nonzero?.map bool
    | .float32 => (datum.numeric?.bind Ieee.narrow?).map float32
    | .float64 => datum.numeric?.map float64
    | .integer kind => datum.integral?.bind (ofInt? kind)

/-- A conversion yields a datum of the kind that it was asked for. -/
theorem kind_of_convert? {datum result : Scalar} {target : Kind}
    (converted : datum.convert? target = some result) : result.kind = target := by
  unfold convert? at converted
  split at converted
  · rename_i same
    cases converted
    exact same
  · cases target with
    | string => cases converted; rfl
    | bool =>
      obtain ⟨_, _, rfl⟩ := Option.map_eq_some_iff.mp converted
      rfl
    | float32 =>
      obtain ⟨_, _, rfl⟩ := Option.map_eq_some_iff.mp converted
      rfl
    | float64 =>
      obtain ⟨_, _, rfl⟩ := Option.map_eq_some_iff.mp converted
      rfl
    | integer kind =>
      obtain ⟨number, _, inRange⟩ := Option.bind_eq_some_iff.mp converted
      simp only [ofInt?] at inRange
      split at inRange
      · cases inRange
        rfl
      · cases inRange

end Scalar

end ProcessImage
