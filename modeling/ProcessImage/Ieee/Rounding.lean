import ProcessImage.Ieee.Format

/-!
# Rounding to the nearest floating-point number

Every conversion into a floating-point format is one rounding of an exact
quotient of naturals: of two neighbouring codes the nearer wins, and a tie goes
to the even code.  A quotient beyond the middle between the greatest finite
number and its successor becomes infinity.
-/

namespace ProcessImage.Ieee

/-- The code nearest to a quotient, ties to the even code.  Twice the quotient
in units is compared with the sum of the two magnitudes around it. -/
def Format.nearestCode (format : Format) (numerator denominator : Nat) : Nat :=
  let scaled := numerator * format.unitsPerOne
  let below := format.codeBelow (scaled / denominator)
  let middle := (format.units below + format.units (below + 1)) * denominator
  match compare (2 * scaled) middle with
  | .lt => below
  | .gt => below + 1
  | .eq => if below % 2 = 0 then below else below + 1

namespace Number

/-- The number nearest to a quotient, with the given sign. -/
def ofQuotient {format : Format} (negative : Bool) (numerator denominator : Nat) :
    Number format :=
  ofCode negative (format.nearestCode numerator denominator)

/-- The number nearest to an integer. -/
def ofInt {format : Format} (number : Int) : Number format :=
  ofQuotient (number < 0) number.natAbs 1

/-- The same number in another format, rounded when it has to be. -/
def convert {source : Format} (target : Format) : Number source → Number target
  | nan => nan
  | infinity negative => infinity negative
  | finite negative code =>
      ofQuotient negative (source.units code) source.unitsPerOne

/-- A finite number without its fraction, toward zero. -/
def truncate? {format : Format} : Number format → Option Int
  | finite negative code =>
      let whole : Int := ↑(format.units code / format.unitsPerOne)
      some (if negative then -whole else whole)
  | _ => none

/-- Whether a finite number has no fraction. -/
def isWhole {format : Format} : Number format → Bool
  | finite _ code => format.units code % format.unitsPerOne == 0
  | _ => false

/-- Magnitude of a finite number as a fraction is below that of a code. -/
def magnitudeBelow {format : Format} (bound : Nat) : Number format → Bool
  | finite _ code => code.val < bound
  | _ => false

end Number

/-- Numbers of magnitude ten to the power 38, as this format rounds it, and
more are not read as integers. -/
def integralBound : Nat := binary64.nearestCode (Nat.pow 10 38) 1

/-- The integer part of a number that is small enough to have one. -/
def integerPart? (number : Binary64) : Option Int :=
  if number.magnitudeBelow integralBound then number.truncate? else none

/-- The integer that a number is, if it is one and small enough. -/
def exactInteger? (number : Binary64) : Option Int :=
  if number.isWhole then integerPart? number else none

/-- The code of the greatest finite narrow number, in the wide format. -/
def greatestNarrowCode : Nat :=
  binary64.nearestCode (binary32.units (binary32.infinityCode - 1)) binary32.unitsPerOne

/-- A wide number in the narrow format.  A finite number beyond the narrow
range has none; infinities and not-a-numbers pass. -/
def narrow? : Binary64 → Option Binary32
  | .finite negative code =>
      if greatestNarrowCode < code.val then none
      else some ((Number.finite negative code : Binary64).convert binary32)
  | number => some (number.convert binary32)

end ProcessImage.Ieee
