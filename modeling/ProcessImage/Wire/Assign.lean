import ProcessImage.Journal
import ProcessImage.Wire.Tree

/-!
# Writing values into trees

A value is written node by node, in the order of its fields and elements, into
a tree whose schema it has to match exactly: nothing is converted here.  Where
value and schema disagree the writing stops, and what was written before stays.

`Tree.ofValue` makes a tree of its own for a value, with the schema of the type
of the value, and marks it as a whole.
-/

namespace ProcessImage.Wire

namespace Tree

/-- The data of elements that are all scalars of one kind. -/
def dataOfKind (kind : Kind) : List Value → Except Fault (List Datum)
  | [] => .ok []
  | .scalar datum :: rest =>
      if datum.kind = kind then (dataOfKind kind rest).map (Datum.ofScalar datum :: ·)
      else .error (.mismatch (.kind kind) (.type (Value.scalar datum).typeOf))
  | value :: _ => .error (.mismatch (.kind kind) (.type value.typeOf))

/-- The items for an array node of a tag, from an array of elements that is
declared with an element type. -/
def itemsFor (tag : Tag) (array : Value) (element : DataType) (elements : List Value) :
    Except Fault DatumArray := do
  match element.scalarKind? with
  | none => throw (.mismatch (.tag tag) (.type array.typeOf))
  | some kind =>
      if Tag.arrayOfKind kind = tag then
        let data ← dataOfKind kind elements
        DatumArray.ofItems tag data
      else throw (.mismatch (.tag tag) (.tag (.arrayOfKind kind)))

/-- Writes into an array of scalars. -/
def assignScalars (tree : Tree) (id : Nat) (tag : Tag) (array : Value) (element : DataType)
    (elements : List Value) : Except Fault Tree := do
  let items ← itemsFor tag array element elements
  tree.putScalarArray id items

/-- Writes a scalar. -/
def assignScalar (tree : Tree) (id : Nat) (tag : Tag) (datum : Scalar) : Except Fault Tree :=
  if (Datum.ofScalar datum).tag = tag then tree.putScalar id (.ofScalar datum)
  else .error (.mismatch (.tag tag) (.tag (Datum.ofScalar datum).tag))

/-- Gives an array of structures the number of elements that it is to have. -/
def fitLength (tree : Tree) (id : Nat) (fixed : Option Nat) (count : Nat) :
    Except Fault (Tree × List Nat) :=
  match fixed with
  | some length =>
      if count = length then tree.resize id count
      else .error (.mismatch (.elements length) (.elements count))
  | none => tree.resize id count

/-- The tree after an attempt: the new one, or the old one and a fault. -/
def settle (tree : Tree) : Except Fault Tree → Tree × Except Fault Unit
  | .ok tree => (tree, .ok ())
  | .error fault => (tree, .error fault)

mutual

/-- Writes a value below a node, and yields the tree as far as it was written. -/
def assign (tree : Tree) (id : Nat) : Value → Tree × Except Fault Unit
  | .empty =>
      match tree.node? id with
      | none => (tree, .error (.noNode id))
      | some node => (tree, .error (.mismatch (.tag node.schema.tag) (.type .empty)))
  | .scalar datum =>
      match tree.node? id with
      | none => (tree, .error (.noNode id))
      | some ⟨.scalar tag, _, _⟩ => tree.settle (tree.assignScalar id tag datum)
      | some node =>
          (tree, .error (.mismatch (.tag node.schema.tag) (.type (Value.scalar datum).typeOf)))
  | .struct name fields =>
      match tree.node? id with
      | none => (tree, .error (.noNode id))
      | some ⟨.struct .., _, _⟩ =>
          let members := tree.members id
          if members.map (·.1) = fields.map (·.1) then
            assignFields tree (members.map (·.2)) fields
          else
            (tree, .error (.mismatch (.members (members.map (·.1))) (.fields (fields.map (·.1)))))
      | some node =>
          (tree, .error
            (.mismatch (.tag node.schema.tag) (.type (Value.struct name fields).typeOf)))
  | .array name element length elements =>
      match tree.node? id with
      | none => (tree, .error (.noNode id))
      | some ⟨.scalarArray tag _ _, _, _⟩ =>
          tree.settle
            (tree.assignScalars id tag (.array name element length elements) element elements)
      | some ⟨.structArray _ _ _ fixed, _, _⟩ =>
          match tree.fitLength id fixed elements.length with
          | .ok (resized, children) => assignElements resized children elements
          | .error fault => (tree, .error fault)
      | some node =>
          (tree, .error (.mismatch (.tag node.schema.tag) (.type (.array name element length))))

/-- Writes fields into the members at the given nodes, one by one. -/
def assignFields (tree : Tree) : List Nat → List (String × Value) → Tree × Except Fault Unit
  | child :: children, (_, value) :: rest =>
      match assign tree child value with
      | (tree, .ok ()) => assignFields tree children rest
      | (tree, .error fault) => (tree, .error fault)
  | _, _ => (tree, .ok ())

/-- Writes values into the elements at the given nodes, one by one. -/
def assignElements (tree : Tree) : List Nat → List Value → Tree × Except Fault Unit
  | child :: children, value :: rest =>
      match assign tree child value with
      | (tree, .ok ()) => assignElements tree children rest
      | (tree, .error fault) => (tree, .error fault)
  | _, _ => (tree, .ok ())

end

/-- Writes a value into the whole tree.  The absent tree takes only the absent
value. -/
def write (tree : Tree) (value : Value) : Tree × Except Fault Unit :=
  match tree.root with
  | some root => tree.assign root value
  | none =>
      (tree, if value.isEmpty then .ok () else .error (.mismatch (.type value.typeOf) .emptyTree))

/-- A marked tree for a value, with the schema of its type; the absent value
gives the absent tree. -/
def ofValue (value : Value) : Except Fault Tree :=
  if value.isEmpty then .ok {}
  else do
    let schema ← Schema.ofType value.typeOf
    match (ofSchema schema).write value with
    | (tree, .ok ()) => return tree.markRoot
    | (_, .error fault) => throw fault

/-- What the journal says when a tree is made for a value. -/
def ofValueNotes (value : Value) : List Note :=
  match ofValue value with
  | .ok tree =>
      tree.schema?.toList.map fun schema =>
        .debug ("[structured] encoded " ++ value.typeOf.text ++ " into " ++ schema.tag.name ++
          " wire tag")
  | .error _ => []

end Tree

end ProcessImage.Wire
