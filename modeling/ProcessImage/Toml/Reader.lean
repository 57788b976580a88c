import ProcessImage.Text.Decimal

/-!
# Readers

A `Reader` takes something off the front of a text, or fails.  Alternatives
start again where their predecessor started.  A reader is repeated at most once
for every character of the text, so every repetition ends.
-/

namespace ProcessImage.Toml

/-- Takes something off the front of a text, or fails. -/
abbrev Reader := StateT (List Char) Option

namespace Reader

/-- One character of a class. -/
def one (accept : Char → Bool) : Reader Char
  | character :: rest => if accept character then some (character, rest) else none
  | [] => none

/-- A given character. -/
def char (wanted : Char) : Reader Unit := do
  let _ ← one (· == wanted)

/-- Given characters in a row. -/
def word (wanted : String) : Reader Unit := fun input =>
  let characters := wanted.toList
  if characters.isPrefixOf input then some ((), input.drop characters.length) else none

/-- All characters of a class that come next. -/
def takeWhile (accept : Char → Bool) : Reader (List Char) := fun input =>
  some (input.takeWhile accept, input.dropWhile accept)

/-- Nothing but the end of the text. -/
def atEnd : Reader Unit
  | [] => some ((), [])
  | _ => none

/-- What a reader takes, or nothing. -/
def maybe (reader : Reader α) : Reader (Option α) :=
  (some <$> reader) <|> pure none

/-- What a reader takes as often as it can, up to a number of times. -/
def upTo (reader : Reader α) : Nat → List Char → List α × List Char
  | 0, input => ([], input)
  | count + 1, input =>
      match reader input with
      | none => ([], input)
      | some (item, rest) =>
          let (items, final) := upTo reader count rest
          (item :: items, final)

/-- What a reader takes as often as it can. -/
def many (reader : Reader α) : Reader (List α) := fun input =>
  some (upTo reader input.length input)

/-- At least one item, with a separator between any two. -/
def separated (item : Reader α) (separator : Reader Unit) : Reader (List α) := do
  let first ← item
  let others ← many (separator *> item)
  return first :: others

/-- The characters that a reader takes. -/
def consumed (reader : Reader α) : Reader (List Char) := fun input => do
  let (_, rest) ← reader input
  return (input.take (input.length - rest.length), rest)

end Reader

end ProcessImage.Toml
