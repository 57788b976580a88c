import ProcessImage.Fault
import ProcessImage.Value.Coercion

/-!
# Assembling values step by step

An assembly puts one value together from steps: a complete value, or a
structure or an array that is opened, filled and closed.

* A value may start where nothing is yet, in an open field, or in an open
  element.
* A field may start only in an open structure, and ends once it holds a value;
  its name must be new there.
* An element may start only in an open array, and ends once it holds a value.
  The first element fixes the element type, unless a hint did so before, and
  later elements are fitted to it.

A step that does not fit leaves the assembly as it was.
-/

namespace ProcessImage

/-- A part under construction. -/
inductive Assembly.Part where
  /-- A complete value. -/
  | value (value : Value)
  /-- An open structure and its fields so far. -/
  | struct (name : Option String) (fields : List (String × Value))
  /-- An open field that waits for its value. -/
  | field (name : String)
  /-- An open array, its element type as far as it is known, and its elements
  so far. -/
  | array (name : Option String) (element : Option DataType) (length : Option Nat)
      (elements : List Value)
  /-- An open element that waits for its value. -/
  | element

/-- The step that brought a part onto the stack. -/
def Assembly.Part.step : Assembly.Part → Assembly.Step
  | .value _ => .value
  | .struct .. => .startStruct
  | .field _ => .startField
  | .array .. => .startArray
  | .element => .startElement

/-- A value under construction: the open parts, the innermost first. -/
abbrev Assembly := List Assembly.Part

namespace Assembly

/-- The refusal of a step on top of the given parts. -/
def refuse (step : Step) (parts : Assembly) : Fault :=
  .stepNotAllowed step (parts.head?.map Part.step)

/-- The fields of a structure with one more, unless its name is taken. -/
def appendField (fields : List (String × Value)) (name : String) (value : Value) :
    Except Fault (List (String × Value)) :=
  if name ∈ fields.map (·.1) then .error (.duplicateField name)
  else .ok (fields ++ [(name, value)])

/-- A value as an element of a type: as it is when it has the type, fitted to
it otherwise. -/
def fitElement (element : DataType) (value : Value) : Except Fault Value :=
  if value.typeOf = element then .ok value
  else
    match value.coerce? element with
    | some fitted => .ok fitted
    | none => .error (.mismatch (.type element) (.type value.typeOf))

/-- A part where a value may start, put on top of the others. -/
def openPart (part : Part) (parts : Assembly) : Except Fault Assembly :=
  match parts with
  | [] | .field _ :: _ | .element :: _ => .ok (part :: parts)
  | _ => .error (refuse part.step parts)

/-- Puts a complete value. -/
def pushValue (value : Value) (parts : Assembly) : Except Fault Assembly :=
  openPart (.value value) parts

/-- Opens a structure. -/
def startStruct (name : Option String) (parts : Assembly) : Except Fault Assembly :=
  openPart (.struct name []) parts

/-- Closes a structure. -/
def endStruct : Assembly → Except Fault Assembly
  | .struct name fields :: rest => .ok (.value (.struct name fields) :: rest)
  | parts => .error (refuse .endStruct parts)

/-- Opens a field of the innermost structure. -/
def startField (name : String) : Assembly → Except Fault Assembly
  | .struct structName fields :: rest => .ok (.field name :: .struct structName fields :: rest)
  | parts => .error (refuse .startField parts)

/-- Closes a field that holds its value. -/
def endField : Assembly → Except Fault Assembly
  | .value value :: .field name :: .struct structName fields :: rest =>
      (appendField fields name value).map fun fields => .struct structName fields :: rest
  | parts => .error (refuse .endField parts)

/-- Opens an array.  The hint types the array before its first element; the
length is declared and not checked. -/
def startArray (name : Option String) (hint : Option DataType) (length : Option Nat)
    (parts : Assembly) : Except Fault Assembly :=
  openPart (.array name hint length []) parts

/-- Closes an array.  Without a hint and without elements it has no element
type. -/
def endArray : Assembly → Except Fault Assembly
  | .array name element length elements :: rest =>
      .ok (.value (.array name (element.getD .empty) length elements) :: rest)
  | parts => .error (refuse .endArray parts)

/-- Opens an element of the innermost array. -/
def startElement : Assembly → Except Fault Assembly
  | .array name element length elements :: rest =>
      .ok (.element :: .array name element length elements :: rest)
  | parts => .error (refuse .startElement parts)

/-- Closes an element that holds its value. -/
def endElement : Assembly → Except Fault Assembly
  | .value value :: .element :: .array name element length elements :: rest =>
      (fitElement (element.getD value.typeOf) value).map fun fitted =>
        .array name (some (element.getD value.typeOf)) length (elements ++ [fitted]) :: rest
  | parts => .error (refuse .endElement parts)

/-- The assembled value.  Nothing assembled is no value. -/
def finish : Assembly → Except Fault Value
  | [] => .ok .empty
  | [.value value] => .ok value
  | [part] => .error (.unterminated part.step)
  | parts => .error (.stillPending parts.length)

end Assembly

end ProcessImage
