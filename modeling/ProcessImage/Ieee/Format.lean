/-!
# Binary floating-point numbers by their codes

A binary interchange format is fixed by the widths of its exponent and of its
fraction.  Read as one natural number, the exponent and fraction fields of a
finite number form its *code*; codes ascend exactly as magnitudes do, and the
code after the greatest finite one stands for infinity.

Magnitudes are counted in units of the least positive number of the format, so
that every finite magnitude is a natural number: `Format.units` reads a code as
that number, and `Format.codeBelow` finds the greatest code not above a number
of units.  All arithmetic on floating-point data in this library is exact
natural arithmetic on units followed by one rounding.

A quiet not-a-number is one value here: its sign and payload carry nothing.
-/

namespace ProcessImage.Ieee

/-- Widths of the fields of a binary interchange format, in bits. -/
structure Format where
  exponentBits : Nat
  fractionBits : Nat
deriving DecidableEq, Repr

/-- The format of four bytes. -/
def binary32 : Format := ⟨8, 23⟩

/-- The format of eight bytes. -/
def binary64 : Format := ⟨11, 52⟩

namespace Format

/-- Number of codes that share one exponent. -/
def binade (format : Format) : Nat :=
  Nat.pow 2 format.fractionBits

/-- The code of infinity: all exponent bits set, an empty fraction. -/
def infinityCode (format : Format) : Nat :=
  (Nat.pow 2 format.exponentBits - 1) * format.binade

/-- The least positive number is two to the power minus this. -/
def unitExponent (format : Format) : Nat :=
  Nat.pow 2 (format.exponentBits - 1) - 2 + format.fractionBits

/-- Number of units in one. -/
def unitsPerOne (format : Format) : Nat :=
  Nat.pow 2 format.unitExponent

/-- Magnitude of a code, in units of the least positive number.  The codes of
the first two binades are their own magnitudes, and the step between
neighbours doubles with every later binade. -/
def units (format : Format) (code : Nat) : Nat :=
  let doublings := code / format.binade - 1
  (code - doublings * format.binade) * Nat.pow 2 doublings

/-- The greatest code whose magnitude is at most the given number of units. -/
def codeBelow (format : Format) (amount : Nat) : Nat :=
  let doublings := Nat.log2 amount - format.fractionBits
  doublings * format.binade + amount / Nat.pow 2 doublings

/-- Weight of the sign bit. -/
def signWeight (format : Format) : Nat :=
  Nat.pow 2 (format.exponentBits + format.fractionBits)

end Format

/-- A floating-point datum: a number with its sign, or no number at all. -/
inductive Number (format : Format) where
  | nan
  | infinity (negative : Bool)
  | finite (negative : Bool) (code : Fin format.infinityCode)
deriving DecidableEq, Repr

/-- A floating-point datum of four bytes. -/
abbrev Binary32 := Number binary32

/-- A floating-point datum of eight bytes. -/
abbrev Binary64 := Number binary64

namespace Number

variable {format : Format}

/-- The number with the given sign and code; every code from that of infinity
on stands for infinity. -/
def ofCode (negative : Bool) (code : Nat) : Number format :=
  if small : code < format.infinityCode then finite negative ⟨code, small⟩
  else infinity negative

/-- The datum that a bit pattern stands for. -/
def ofBits (bits : Nat) : Number format :=
  let code := bits % format.signWeight
  if format.infinityCode < code then nan
  else ofCode (bits / format.signWeight % 2 == 1) code

/-- Bit pattern of a sign and a code. -/
def bitsOf (format : Format) (negative : Bool) (code : Nat) : Nat :=
  (if negative then format.signWeight else 0) + code

/-- The bit pattern of a datum.  A not-a-number is written positive and quiet:
the leading fraction bit alone is set. -/
def toBits : Number format → Nat
  | nan => format.infinityCode + format.binade / 2
  | infinity negative => bitsOf format negative format.infinityCode
  | finite negative code => bitsOf format negative code

/-- Whether the datum is a finite number. -/
def isFinite : Number format → Bool
  | finite _ _ => true
  | _ => false

/-- Whether the datum differs from zero, as a not-a-number does. -/
def isNonzero : Number format → Bool
  | finite _ code => code.val != 0
  | _ => true

/-- Positive zero. -/
def zero : Number format := ofCode false 0

/-- One. -/
def one : Number format := ofCode false (format.codeBelow format.unitsPerOne)

/-- Comparison of data as numbers: both zeros are equal, and a not-a-number
equals nothing. -/
def numericEq : Number format → Number format → Bool
  | infinity left, infinity right => left == right
  | finite left code, finite right code' =>
      code == code' && (left == right || code.val == 0)
  | _, _ => false

end Number

end ProcessImage.Ieee
