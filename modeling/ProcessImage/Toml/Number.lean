import ProcessImage.Kind
import ProcessImage.Toml.Lexeme
import ProcessImage.Toml.Value

/-!
# Numbers and times of TOML

Digits of numbers may be grouped by underscores.  Integers have 64 bits, and
only those in another base may begin with a zero.  Dates are dates of the
calendar.
-/

namespace ProcessImage.Toml

open Reader
open ProcessImage.Text (readDigits?)

/-- Whether a character is a decimal digit. -/
def isDigit (character : Char) : Bool := '0' ≤ character && character ≤ '9'

/-- Digits of a class, with single underscores between them. -/
def groupedDigits (accept : Char → Bool) : Reader (List Char) := do
  let first ← one accept
  let others ← many (one accept <|> (char '_' *> one accept))
  return first :: others

/-- An optional sign. -/
def sign : Reader (List Char) :=
  ((fun character => [character]) <$> one fun character =>
    character == '+' || character == '-') <|> pure []

/-- A decimal integer without needless zeros: its sign and its digits. -/
def decimalParts : Reader (List Char × List Char) := do
  let sign ← sign
  let digits ←
    (do
      let first ← one fun character => isDigit character && character != '0'
      let others ← many (one isDigit <|> (char '_' *> one isDigit))
      return first :: others) <|> (char '0' *> pure ['0'])
  return (sign, digits)

/-- Value of digits in a base. -/
def digitsInBase (base : Nat) (digits : List Char) : Nat :=
  digits.foldl (fun soFar digit => soFar * base + (hexDigit? digit).getD 0) 0

/-- An integer without sign in the base that its first two characters name. -/
def basedInteger : Reader Int :=
  let inBase (base : Nat) (accept : Char → Bool) : Reader Int :=
    (fun digits => (digitsInBase base digits : Int)) <$> groupedDigits accept
  (word "0x" *> inBase 16 fun character => (hexDigit? character).isSome) <|>
    (word "0o" *> inBase 8 fun character => '0' ≤ character && character ≤ '7') <|>
    (word "0b" *> inBase 2 fun character => character == '0' || character == '1')

/-- An integer of 64 bits. -/
def integer : Reader Value := do
  let number ← basedInteger <|> (do
    let (sign, digits) ← decimalParts
    let magnitude : Int := digitsInBase 10 digits
    return if sign = ['-'] then -magnitude else magnitude)
  if IntegerKind.int64.Contains number then return .integer number else failure

/-- The exponent of a floating-point number. -/
def exponent : Reader (List Char) := do
  let _ ← one fun character => character == 'e' || character == 'E'
  let sign ← sign
  let digits ← groupedDigits isDigit
  return 'e' :: sign ++ digits

/-- The fraction of a floating-point number, with the exponent if there is
one. -/
def fraction : Reader (List Char) := do
  char '.'
  let digits ← groupedDigits isDigit
  let exponent ← exponent <|> pure []
  return '.' :: digits ++ exponent

/-- A floating-point number in digits; one beyond the greatest is refused. -/
def digitFloat : Reader Value := do
  let (sign, digits) ← decimalParts
  let tail ← exponent <|> fraction
  match Ieee.readNumber? (sign ++ digits ++ tail) with
  | some (.infinity false) => failure
  | some number => return .float number
  | none => failure

/-- An infinity or a not-a-number. -/
def wordFloat : Reader Value := do
  let sign ← sign
  (word "inf" *> pure (.float (.infinity (sign = ['-'])))) <|> (word "nan" *> pure (.float .nan))

/-- Digits of a fixed number. -/
def fixedDigits : Nat → Nat → Reader Nat
  | 0, soFar => return soFar
  | count + 1, soFar => do
      let character ← one isDigit
      fixedDigits count (soFar * 10 + (character.toNat - 48))

/-- Two digits up to a greatest number. -/
def twoDigits (least greatest : Nat) : Reader Nat := do
  let number ← fixedDigits 2 0
  if least ≤ number ∧ number ≤ greatest then return number else failure

/-- Number of days in a month. -/
def daysInMonth (year month : Nat) : Nat :=
  let leap := year % 4 = 0 ∧ (year % 100 ≠ 0 ∨ year % 400 = 0)
  if month = 2 then if leap then 29 else 28
  else if month ∈ [4, 6, 9, 11] then 30
  else 31

/-- A date. -/
def date : Reader Unit := do
  let year ← fixedDigits 4 0
  char '-'
  let month ← twoDigits 1 12
  char '-'
  let _ ← twoDigits 1 (daysInMonth year month)

/-- A time of day. -/
def time : Reader Unit := do
  let _ ← twoDigits 0 23
  char ':'
  let _ ← twoDigits 0 59
  char ':'
  let _ ← twoDigits 0 60
  let _ ← maybe (do
    char '.'
    let _ ← one isDigit
    let _ ← takeWhile isDigit)

/-- The distance of a time from universal time. -/
def offset : Reader Unit :=
  char 'Z' <|> char 'z' <|> (do
    let _ ← one fun character => character == '+' || character == '-'
    let _ ← twoDigits 0 23
    char ':'
    let _ ← twoDigits 0 59)

/-- A date, a time, or both. -/
def datetime : Reader Value := do
  let characters ← consumed ((do
    date
    let _ ← maybe (do
      let _ ← one fun character => character == 'T' || character == 't' || character == ' '
      time
      let _ ← maybe offset)) <|> time)
  return .datetime (String.ofList characters)

/-- Any number or time. -/
def number : Reader Value :=
  datetime <|> digitFloat <|> wordFloat <|> integer

end ProcessImage.Toml
