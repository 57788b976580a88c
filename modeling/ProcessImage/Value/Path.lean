import ProcessImage.Value

/-!
# Field paths

A path names a place inside nested structures by the names of the fields on the
way.  As text, the names are joined by points; the empty text is the place at
the top.  Only existing places can be written, and a name that occurs twice in
a structure means its first field.
-/

namespace ProcessImage

/-- The field names on the way to a place. -/
abbrev Path := List String

namespace Path

/-- The pieces of a text between points. -/
def pieces : List Char → List (List Char)
  | [] => [[]]
  | character :: rest =>
      if character = '.' then [] :: pieces rest
      else
        match pieces rest with
        | [] => [[character]]
        | first :: others => (character :: first) :: others

/-- The path that a text writes. -/
def ofText (text : String) : Path :=
  if text = "" then [] else (pieces text.toList).map String.ofList

end Path

namespace Value

/-- The value at a path. -/
def get? (value : Value) : Path → Option Value
  | [] => some value
  | name :: rest => (value.field? name).bind (get? · rest)

/-- Fields with the first one of a name changed, when there is one and its
change succeeds. -/
def changeField? (name : String) (change : Value → Option Value) :
    List (String × Value) → Option (List (String × Value))
  | [] => none
  | (first, value) :: rest =>
      if first = name then (change value).map fun changed => (first, changed) :: rest
      else (changeField? name change rest).map ((first, value) :: ·)

/-- The value with a new value at an existing path. -/
def set? (value : Value) (new : Value) : Path → Option Value
  | [] => some new
  | name :: rest =>
      match value with
      | .struct structName fields =>
          (changeField? name (set? · new rest) fields).map (.struct structName)
      | _ => none

/-- Fields with the first one of a name replaced, or with a new last field. -/
def putField (name : String) (new : Value) : List (String × Value) → List (String × Value)
  | [] => [(name, new)]
  | (first, value) :: rest =>
      if first = name then (first, new) :: rest
      else (first, value) :: putField name new rest

/-- A structure with a field replaced or added. -/
def setField? (value : Value) (name : String) (new : Value) : Option Value :=
  match value with
  | .struct structName fields => some (.struct structName (putField name new fields))
  | _ => none

end Value

end ProcessImage
