/-!
# Decimal integers as text

Integers are written with the fewest digits and a minus sign where they are
negative, and read back with an optional sign of either kind and any number of
leading zeros.
-/

namespace ProcessImage.Text

/-- Value of a decimal digit. -/
def digitValue? (character : Char) : Option Nat :=
  if '0' ≤ character ∧ character ≤ '9' then some (character.toNat - 48) else none

/-- The natural number that a row of digits writes after the digits read so
far, whose number is given. -/
def readDigits? (soFar : Nat) : List Char → Option Nat
  | [] => some soFar
  | character :: rest => do
      let digit ← digitValue? character
      readDigits? (soFar * 10 + digit) rest

/-- The natural number that a row of at least one digit writes. -/
def readNat? : List Char → Option Nat
  | [] => none
  | characters => readDigits? 0 characters

/-- Splits a sign off a text: whether it is a minus, and what follows. -/
def splitSign : List Char → Bool × List Char
  | '-' :: rest => (true, rest)
  | '+' :: rest => (false, rest)
  | characters => (false, characters)

/-- The integer that an optional sign and at least one digit write. -/
def readInt? (characters : List Char) : Option Int :=
  let (negative, digits) := splitSign characters
  (readNat? digits).map fun magnitude => if negative then -(magnitude : Int) else magnitude

/-- An integer in decimal. -/
def writeInt : Int → String
  | .ofNat magnitude => String.ofList (Nat.toDigits 10 magnitude)
  | .negSucc below => String.ofList ('-' :: Nat.toDigits 10 (below + 1))

end ProcessImage.Text
