import ProcessImage.Ieee.Rounding

/-!
# The shortest decimal of a floating-point number

A finite number is written with the fewest significant digits that no other
number of its format is nearer to; of two such decimals the nearer one is
taken, and of two equally near ones the greater.  The search goes through the
decimal grids from coarse to fine and tries the two grid points around the
number, in exact arithmetic.
-/

namespace ProcessImage.Ieee

/-- A decimal: digits times a power of ten. -/
structure Decimal where
  digits : Nat
  exponent : Int
deriving DecidableEq, Repr

/-- The quotients that round to a code lie between two ends, both over the
same denominator; the ends belong to them exactly for an even code. -/
structure RoundingInterval where
  low : Nat
  middle : Nat
  high : Nat
  denominator : Nat
  closed : Bool
deriving Repr

namespace RoundingInterval

/-- The quotients that round to a positive code. -/
def ofCode (format : Format) (code : Nat) : RoundingInterval where
  low := format.units (code - 1) + format.units code
  middle := 2 * format.units code
  high := format.units code + format.units (code + 1)
  denominator := 2 * format.unitsPerOne
  closed := code % 2 == 0

/-- The same quotients, divided by a power of ten. -/
def scale (interval : RoundingInterval) (exponent : Int) : RoundingInterval :=
  let down := Nat.pow 10 exponent.toNat
  let up := Nat.pow 10 (-exponent).toNat
  { interval with
    low := interval.low * up
    middle := interval.middle * up
    high := interval.high * up
    denominator := interval.denominator * down }

/-- Whether a natural number lies in the interval. -/
def contains (interval : RoundingInterval) (number : Nat) : Bool :=
  let scaled := number * interval.denominator
  if interval.closed then interval.low ≤ scaled && scaled ≤ interval.high
  else interval.low < scaled && scaled < interval.high

/-- The natural number in the interval that is nearest to its middle, the
greater one of two, if one of the neighbours of the middle lies in it. -/
def nearest? (interval : RoundingInterval) : Option Nat :=
  let below := interval.middle / interval.denominator
  let remainder := interval.middle % interval.denominator
  match interval.contains below, interval.contains (below + 1) with
  | true, true =>
      some (if 2 * remainder < interval.denominator then below else below + 1)
  | true, false => some below
  | false, true => some (below + 1)
  | false, false => none

/-- Decimal grids from the given exponent down, at most as many as given. -/
def search (interval : RoundingInterval) (exponent : Int) : Nat → Decimal
  | 0 => ⟨(interval.scale exponent).middle / (interval.scale exponent).denominator, exponent⟩
  | attempts + 1 =>
      match (interval.scale exponent).nearest? with
      | some digits => ⟨digits, exponent⟩
      | none => interval.search (exponent - 1) attempts

end RoundingInterval

/-- An exponent of ten above every number of the magnitude of a code. -/
def leadingExponent (format : Format) (code : Nat) : Int :=
  let scaled := format.units code * Nat.pow 10 400 / format.unitsPerOne
  ((Nat.toDigits 10 scaled).length : Int) - 400

/-- The shortest decimal that reads back as a positive code. -/
def shortest (format : Format) (code : Nat) : Decimal :=
  (RoundingInterval.ofCode format code).search (leadingExponent format code)
    (format.fractionBits + 1)

namespace Decimal

/-- The digits, most significant first. -/
def characters (decimal : Decimal) : List Char :=
  Nat.toDigits 10 decimal.digits

/-- A row of zeros. -/
def zeros (count : Nat) : List Char :=
  List.replicate count '0'

/-- Positional writing: no exponent, and no point where there is no fraction. -/
def positional (decimal : Decimal) : List Char :=
  let digits := decimal.characters
  if 0 ≤ decimal.exponent then digits ++ zeros decimal.exponent.toNat
  else
    let places := (-decimal.exponent).toNat
    if places < digits.length then
      digits.take (digits.length - places) ++ '.' :: digits.drop (digits.length - places)
    else '0' :: '.' :: zeros (places - digits.length) ++ digits

/-- Exponent of the leading digit. -/
def leading (decimal : Decimal) : Int :=
  decimal.exponent + decimal.characters.length - 1

/-- Scientific writing: one digit before the point and an exponent. -/
def scientific (decimal : Decimal) : List Char :=
  let mantissa :=
    match decimal.characters with
    | leading :: [] => [leading]
    | leading :: rest => leading :: '.' :: rest
    | [] => []
  mantissa ++ 'e' :: (toString decimal.leading).toList

end Decimal

namespace Number

variable {format : Format}

/-- A sign in front of a written magnitude. -/
def withSign (negative : Bool) (magnitude : List Char) : String :=
  String.ofList (if negative then '-' :: magnitude else magnitude)

/-- A number as it travels in text: always positional. -/
def text : Number format → String
  | nan => "NaN"
  | infinity negative => withSign negative "inf".toList
  | finite negative code =>
      withSign negative (if code.val = 0 then ['0'] else (shortest format code).positional)

/-- A number as it stands in a diagnostic: with a fraction always, and with an
exponent from ten to the power 16 on and below ten to the power -4. -/
def diagnostic : Number format → String
  | nan => "NaN"
  | infinity negative => withSign negative "inf".toList
  | finite negative code =>
      withSign negative <|
        if code.val = 0 then "0.0".toList
        else
          let decimal := shortest format code
          if decimal.leading < -4 ∨ 16 ≤ decimal.leading then decimal.scientific
          else if 0 ≤ decimal.exponent then decimal.positional ++ ['.', '0']
          else decimal.positional

end Number

end ProcessImage.Ieee
