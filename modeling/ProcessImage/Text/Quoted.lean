import ProcessImage.Text.Invisible

/-!
# Quoted text

Names in messages and diagnostics stand between double quotes.  A quote, a
backslash and the common control characters are written as two characters, and
any other character that does not show by itself is written as its code point.
-/

namespace ProcessImage.Text

/-- The characters that write one character inside quotes. -/
def quoteChar (character : Char) : List Char :=
  match character with
  | '"' => ['\\', '"']
  | '\\' => ['\\', '\\']
  | '\n' => ['\\', 'n']
  | '\r' => ['\\', 'r']
  | '\t' => ['\\', 't']
  | '\x00' => ['\\', '0']
  | other =>
      if isInvisible other then
        ['\\', 'u', '\x7b'] ++ Nat.toDigits 16 other.toNat ++ ['\x7d']
      else [other]

/-- A text between quotes. -/
def quote (text : String) : String :=
  String.ofList ('"' :: text.toList.flatMap quoteChar ++ ['"'])

/-- Texts in brackets, separated by commas. -/
def bracket (items : List String) : String :=
  "[" ++ String.intercalate ", " items ++ "]"

/-- A list of quoted names. -/
def quoteAll (names : List String) : String :=
  bracket (names.map quote)

end ProcessImage.Text
