import ProcessImage.Toml.Reader

/-!
# Blanks, comments, texts and keys of TOML

The small pieces of a TOML document.  Control characters other than the tab may
stand nowhere, and a carriage return only before a line feed.
-/

namespace ProcessImage.Toml

open Reader

/-! ## Blanks -/

/-- Spaces and tabs. -/
def isGap (character : Char) : Bool := character == ' ' || character == '\t'

/-- Any spaces and tabs. -/
def gap : Reader Unit := do
  let _ ← takeWhile isGap

/-- The end of a line. -/
def newline : Reader Unit := char '\n' <|> word "\r\n"

/-- Characters that show by themselves, and the tab. -/
def isPlain (character : Char) : Bool :=
  character == '\t' || (0x20 ≤ character.toNat && character.toNat != 0x7F)

/-- A comment, up to the end of its line. -/
def comment : Reader Unit := do
  char '#'
  let _ ← takeWhile isPlain

/-- The rest of a line that says nothing more. -/
def lineEnd : Reader Unit := do
  gap
  let _ ← maybe comment
  newline <|> atEnd

/-- Blanks, ends of lines and comments. -/
def space : Reader Unit := do
  let _ ← many ((do let _ ← one isGap) <|> newline <|> (comment *> newline))

/-! ## Texts -/

/-- Value of a hexadecimal digit. -/
def hexDigit? (character : Char) : Option Nat :=
  if '0' ≤ character ∧ character ≤ '9' then some (character.toNat - 48)
  else if 'a' ≤ character ∧ character ≤ 'f' then some (character.toNat - 87)
  else if 'A' ≤ character ∧ character ≤ 'F' then some (character.toNat - 55)
  else none

/-- A number of hexadecimal digits. -/
def hexDigits : Nat → Nat → Reader Nat
  | 0, soFar => return soFar
  | count + 1, soFar => do
      let character ← one fun character => (hexDigit? character).isSome
      hexDigits count (soFar * 16 + (hexDigit? character).getD 0)

/-- The character that a number of hexadecimal digits name. -/
def codePoint (digits : Nat) : Reader Char := do
  let code ← hexDigits digits 0
  if code.isValidChar then return Char.ofNat code else failure

/-- A character written by a backslash and what follows it. -/
def escape : Reader Char := do
  char '\\'
  match ← one fun _ => true with
  | 'b' => return '\x08'
  | 't' => return '\t'
  | 'n' => return '\n'
  | 'f' => return '\x0c'
  | 'r' => return '\r'
  | '"' => return '"'
  | '\\' => return '\\'
  | 'u' => codePoint 4
  | 'U' => codePoint 8
  | _ => failure

/-- A text between double quotes, on one line. -/
def basicString : Reader String := do
  char '"'
  let characters ← many (escape <|> one fun character =>
    isPlain character && character != '"' && character != '\\')
  char '"'
  return String.ofList characters

/-- A text between single quotes, on one line. -/
def literalString : Reader String := do
  char '\''
  let characters ← takeWhile fun character => isPlain character && character != '\''
  char '\''
  return String.ofList characters

/-- One or two quotes that do not close a text over several lines. -/
def innerQuotes (quote : Char) : Reader (List Char) := fun input =>
  let quotes := input.takeWhile (· == quote)
  if quotes.length = 1 ∨ quotes.length = 2 then some (quotes, input.drop quotes.length) else none

/-- The three quotes that close a text over several lines, after up to two that
belong to it. -/
def closingQuotes (quote : Char) : Reader (List Char) := fun input =>
  let quotes := input.takeWhile (· == quote)
  if 3 ≤ quotes.length ∧ quotes.length ≤ 5 then
    some (quotes.drop 3, input.drop quotes.length)
  else none

/-- A backslash that joins a line with the next one that is not blank. -/
def joinedLine : Reader (List Char) := do
  char '\\'
  gap
  newline
  let _ ← many ((do let _ ← one isGap) <|> newline)
  return []

/-- A text over several lines, between triple quotes; escapes are read where
they are allowed. -/
def longString (quote : Char) (escaped : Reader (List Char)) : Reader String := do
  word (String.ofList [quote, quote, quote])
  let _ ← maybe newline
  let pieces ← many (escaped <|> innerQuotes quote <|> (newline *> pure ['\n']) <|>
    ((fun character => [character]) <$> one fun character =>
      isPlain character && character != quote && character != '\\'))
  let last ← closingQuotes quote
  return String.ofList (pieces.flatten ++ last)

/-- A text over several lines, between triple double quotes. -/
def longBasicString : Reader String :=
  longString '"' (joinedLine <|> (fun character => [character]) <$> escape)

/-- A text over several lines, between triple single quotes. -/
def longLiteralString : Reader String :=
  longString '\'' (char '\\' *> pure ['\\'])

/-- Any text. -/
def text : Reader String :=
  longBasicString <|> basicString <|> longLiteralString <|> literalString

/-! ## Keys -/

/-- Letters, digits, dashes and underscores. -/
def isBare (character : Char) : Bool :=
  character.isAlphanum || character == '-' || character == '_'

/-- One piece of a key, quoted or not. -/
def keyPiece : Reader String :=
  (do
    let first ← one isBare
    let others ← takeWhile isBare
    return String.ofList (first :: others)) <|> basicString <|> literalString

/-- Nesting of values and keys goes less deep than this. -/
def nestingLimit : Nat := 80

/-- A key: the tables on its way and its last piece. -/
def key : Reader (List String × String) := do
  let pieces ← separated (gap *> keyPiece <* gap) (char '.')
  if pieces.length < nestingLimit then
    match pieces.getLast? with
    | some last => return (pieces.dropLast, last)
    | none => failure
  else failure

end ProcessImage.Toml
