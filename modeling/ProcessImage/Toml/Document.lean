import ProcessImage.Toml.Number

/-!
# TOML documents

A document is read line by line: headers say into which table the keys below
them go, and keys say which values stand there.  `readDocument` yields the
table of the whole document, or nothing for a text that is no document.
-/

namespace ProcessImage.Toml

open Reader

/-- A value that holds no others. -/
def simpleValue : Reader Value :=
  (.string <$> text) <|> (word "true" *> pure (.boolean true)) <|>
    (word "false" *> pure (.boolean false)) <|> number

/-- An array of values. -/
def array (value : Reader Value) : Reader Value := do
  char '['
  space
  let items ← (do
    let items ← separated (space *> value <* space) (char ',')
    let _ ← maybe (char ',')
    return items) <|> pure []
  space
  char ']'
  return .array items

/-- A key with its value. -/
def keyValue (value : Reader Value) : Reader ((List String × String) × Value) := do
  let key ← key
  char '='
  gap
  let value ← value
  return (key, value)

/-- A table between braces. -/
def inlineTable (value : Reader Value) : Reader Value := do
  char '\x7b'
  gap
  let pairs ← separated (keyValue value <* gap) (char ',') <|> pure []
  gap
  char '\x7d'
  let entries ← StateT.lift (pairs.foldlM
    (fun entries ((path, key), value) => Entries.put path key value .inline entries) [])
  return .table .inline entries

/-- A value with at most the given number of arrays and tables around
another. -/
def value : Nat → Reader Value
  | 0 => simpleValue
  | depth + 1 => simpleValue <|> array (value depth) <|> inlineTable (value depth)

/-- A document as far as it is read. -/
structure Draft where
  /-- The table into which keys go. -/
  header : List String := []
  root : Entries := []

/-- A header, in double brackets or single ones. -/
def header (draft : Draft) : Reader Draft :=
  (do
    word "[["
    let (path, last) ← key
    word "]]"
    lineEnd
    let root ← StateT.lift (Entries.append path last draft.root)
    return ⟨path ++ [last], root⟩) <|> (do
    char '['
    let (path, last) ← key
    char ']'
    lineEnd
    let root ← StateT.lift (Entries.define path last draft.root)
    return ⟨path ++ [last], root⟩)

/-- A line with a key and a value. -/
def keyLine (draft : Draft) : Reader Draft := do
  let ((path, last), value) ← keyValue (value (nestingLimit - 1))
  lineEnd
  let root ← StateT.lift (Entries.putBelow draft.header path last value draft.root)
  return { draft with root }

/-- One line. -/
def line (draft : Draft) : Reader Draft := do
  gap
  (lineEnd *> pure draft) <|> header draft <|> keyLine draft

/-- Lines up to the end of the text, at most the given number of them. -/
def lines : Nat → Draft → List Char → Option Draft
  | _, draft, [] => some draft
  | 0, _, _ :: _ => none
  | count + 1, draft, input => do
      let (draft, rest) ← line draft input
      lines count draft rest

/-- The table that a text writes.  A byte order mark may stand before it. -/
def readDocument (characters : List Char) : Option Entries :=
  let characters :=
    match characters with
    | '\uFEFF' :: rest => rest
    | other => other
  (lines characters.length {} characters).map Draft.root

end ProcessImage.Toml
