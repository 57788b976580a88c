import ProcessImage.Ieee.Rounding
import ProcessImage.Text.Decimal

/-!
# Floating-point numbers read from decimal text

A literal is an optional sign followed by a word for an infinity or a
not-a-number in any case of letters, or by digits with at most one point among
or around them and an optional exponent.  It stands for the number nearest to
what it writes, however many digits it has.
-/

namespace ProcessImage.Ieee

open ProcessImage.Text

/-- A decimal magnitude: a significand times a power of ten. -/
structure Magnitude where
  significand : Nat
  exponent : Int
deriving DecidableEq, Repr

namespace Magnitude

/-- Number of decimal places before which the leading digit of a significand
stands. -/
def places (magnitude : Magnitude) : Int :=
  (Nat.toDigits 10 magnitude.significand).length + magnitude.exponent

/-- The nearest number to a decimal magnitude.  Beyond 400 places either way
the answer is infinity or zero for every significand, so that no power of ten
is computed there. -/
def nearest (negative : Bool) (magnitude : Magnitude) : Binary64 :=
  if magnitude.significand = 0 then .ofCode negative 0
  else if 400 < magnitude.places then .infinity negative
  else if magnitude.places < -400 then .ofCode negative 0
  else
    .ofQuotient negative (magnitude.significand * Nat.pow 10 magnitude.exponent.toNat)
      (Nat.pow 10 (-magnitude.exponent).toNat)

end Magnitude

/-- Whether a character is a decimal digit. -/
def isDigit (character : Char) : Bool := (digitValue? character).isSome

/-- The exponent part of a literal: absent, or a marker and an integer. -/
def readExponent? : List Char → Option Int
  | [] => some 0
  | marker :: rest => if marker = 'e' ∨ marker = 'E' then readInt? rest else none

/-- The decimal magnitude that a literal without sign writes. -/
def readMagnitude? (characters : List Char) : Option Magnitude :=
  let whole := characters.takeWhile isDigit
  let afterWhole := characters.dropWhile isDigit
  let afterPoint :=
    match afterWhole with
    | '.' :: rest => rest
    | _ => []
  let fraction := afterPoint.takeWhile isDigit
  let tail :=
    match afterWhole with
    | '.' :: rest => rest.dropWhile isDigit
    | rest => rest
  do
    let significand ← readNat? (whole ++ fraction)
    let exponent ← readExponent? tail
    return ⟨significand, exponent - fraction.length⟩

/-- The number that a decimal literal stands for, if the text is one. -/
def readNumber? (characters : List Char) : Option Binary64 :=
  let (negative, rest) := splitSign characters
  match readMagnitude? rest with
  | some magnitude => some (magnitude.nearest negative)
  | none =>
      let word := rest.map Char.toLower
      if word = "inf".toList ∨ word = "infinity".toList then some (.infinity negative)
      else if word = "nan".toList then some .nan
      else none

end ProcessImage.Ieee
