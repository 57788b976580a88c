import ProcessImage.Assembly
import ProcessImage.Wire.Tree

/-!
# What a tree holds below a node

A `Branch` is a node together with all that it refers to, without the detour
through node numbers.  It follows the schema from the top, so it exists for
every tree, also for one whose references were wrong.

Reading a tree as a value and listing the paths to what is marked are functions
of the branch at its root.  Reading assembles the value as `Assembly` does: a
name that occurs twice in a structure is refused, and elements are fitted to
the type of their array.
-/

namespace ProcessImage.Wire

/-- A node and all that is below it. -/
inductive Branch where
  | scalar (changed : Bool) (datum : Datum)
  | scalarArray (changed : Bool) (name : Option String) (length : Option Nat) (items : DatumArray)
  | struct (changed : Bool) (id : Option String) (members : List (String × Branch))
  | structArray (changed : Bool) (id : Option String) (members : List (String × Schema))
      (name : Option String) (length : Option Nat) (elements : List Branch)
  /-- A union of either tag at a node, and the branches below it. -/
  | union (changed : Bool) (tag : Tag) (node : Nat) (below : List Branch)
  /-- What cannot be followed, and why. -/
  | broken (fault : Fault)

namespace Branch

mutual

/-- The branch below a node that has the given schema. -/
def ofNode (nodes : Array Node) : Schema → Nat → Branch
  | .scalar tag, id =>
      match nodes[id]? with
      | none => .broken (.noNode id)
      | some ⟨_, .scalar datum, changed⟩ => .scalar changed datum
      | some _ => .broken (.inconsistentNode tag id)
  | .scalarArray tag name length, id =>
      match nodes[id]? with
      | none => .broken (.noNode id)
      | some ⟨_, .scalarArray items, changed⟩ => .scalarArray changed name length items
      | some _ => .broken (.inconsistentNode tag id)
  | .struct structId members, id =>
      match nodes[id]? with
      | none => .broken (.noNode id)
      | some ⟨_, .struct children, changed⟩ =>
          .struct changed structId (ofMembers nodes members children)
      | some _ => .broken (.inconsistentNode .struct id)
  | .structArray structId members name length, id =>
      match nodes[id]? with
      | none => .broken (.noNode id)
      | some ⟨_, .structArray elements, changed⟩ =>
          .structArray changed structId members name length
            (elements.map fun (element : Nat) =>
              match nodes[element]? with
              | none => .broken (.noNode element)
              | some ⟨_, .struct children, changed⟩ =>
                  .struct changed structId (ofMembers nodes members children)
              | some _ => .broken (.inconsistentNode .struct element))
      | some _ => .broken (.inconsistentNode .structArray id)
  | .union _ members, id =>
      match nodes[id]? with
      | none => .broken (.noNode id)
      | some ⟨_, .union none, changed⟩ => .union changed .union id []
      | some ⟨_, .union (some (position, child)), changed⟩ =>
          .union changed .union id (ofMemberAt nodes members position child)
      | some _ => .broken (.inconsistentNode .union id)
  | .unionArray _ _, id =>
      match nodes[id]? with
      | none => .broken (.noNode id)
      | some ⟨_, .unionArray _, changed⟩ => .union changed .unionArray id []
      | some _ => .broken (.inconsistentNode .unionArray id)

/-- The branches below the members of a structure. -/
def ofMembers (nodes : Array Node) : List (String × Schema) → List Nat → List (String × Branch)
  | (name, schema) :: rest, child :: children =>
      (name, ofNode nodes schema child) :: ofMembers nodes rest children
  | _, _ => []

/-- The branch below the member at a position. -/
def ofMemberAt (nodes : Array Node) : List (String × Schema) → Nat → Nat → List Branch
  | [], _, _ => []
  | (_, schema) :: _, 0, child => [ofNode nodes schema child]
  | _ :: rest, position + 1, child => ofMemberAt nodes rest position child

end

/-! ## Reading -/

/-- The values of an array of scalars. -/
def itemValues (items : DatumArray) : List Value :=
  items.items.map fun item => .scalar item.scalar

mutual

/-- The value that a branch holds.  Unions hold none. -/
def read : Branch → Except Fault Value
  | .scalar _ datum => .ok (.scalar datum.scalar)
  | .scalarArray _ name length items => do
      let kind ← Schema.kindOfTag items.tag
      return .array name (.scalar kind) length (itemValues items)
  | .struct _ id members => do
      let fields ← readMembers [] members
      return .struct id fields
  | .structArray _ id members name length elements => do
      let fields ← Schema.memberTypes members
      let values ← readElements (.struct id fields) elements
      return .array name (.struct id fields) length values
  | .union _ tag node _ => .error (.unionNode tag node)
  | .broken fault => .error fault

/-- The fields that members hold, after the fields read so far.  A name that is
taken is refused once the value of its member is read. -/
def readMembers (fields : List (String × Value)) :
    List (String × Branch) → Except Fault (List (String × Value))
  | [] => .ok fields
  | (name, member) :: rest => do
      let value ← member.read
      let fields ← Assembly.appendField fields name value
      readMembers fields rest

/-- The elements of an array, each fitted to the element type. -/
def readElements (element : DataType) : List Branch → Except Fault (List Value)
  | [] => .ok []
  | branch :: rest => do
      let value ← branch.read
      let fitted ← Assembly.fitElement element value
      let others ← readElements element rest
      return fitted :: others

end

/-! ## Marks -/

/-- Whether the node at the top is marked. -/
def isMarked : Branch → Bool
  | .scalar changed _ => changed
  | .scalarArray changed .. => changed
  | .struct changed .. => changed
  | .structArray changed .. => changed
  | .union changed .. => changed
  | .broken _ => false

mutual

/-- Whether any node is marked. -/
def hasMark : Branch → Bool
  | .scalar changed _ => changed
  | .scalarArray changed .. => changed
  | .struct changed _ members => changed || membersHaveMark members
  | .structArray changed _ _ _ _ elements => changed || elementsHaveMark elements
  | .union changed _ _ below => changed || elementsHaveMark below
  | .broken _ => false

/-- Whether any node below members is marked. -/
def membersHaveMark : List (String × Branch) → Bool
  | [] => false
  | (_, member) :: rest => member.hasMark || membersHaveMark rest

/-- Whether any node below elements is marked. -/
def elementsHaveMark : List Branch → Bool
  | [] => false
  | branch :: rest => branch.hasMark || elementsHaveMark rest

end

/-- The text of the path to a member of the structure at a path. -/
def memberPath (path name : String) : String :=
  if path = "" then name else path ++ "." ++ name

mutual

/-- The texts of the paths to what is marked, below the node at a path.  A
marked node speaks for all that is below it, and an array or a union speaks for
the marks inside it, because paths lead through structures only. -/
def changedPaths (path : String) : Branch → List String
  | .struct true _ _ => [path]
  | .struct false _ members => memberChangedPaths path members
  | branch => if branch.hasMark then [path] else []

/-- The texts of the paths to what is marked, below members of the structure at
a path. -/
def memberChangedPaths (path : String) : List (String × Branch) → List String
  | [] => []
  | (name, member) :: rest =>
      changedPaths (memberPath path name) member ++ memberChangedPaths path rest

end

end Branch

namespace Tree

/-- What the tree holds, unless it is absent. -/
def branch? (tree : Tree) : Option Branch :=
  tree.root.bind fun root =>
    tree.schema?.map fun schema => Branch.ofNode tree.nodes schema root

/-- The value that the tree holds; the absent tree holds none. -/
def read (tree : Tree) : Except Fault Value :=
  match tree.branch? with
  | some branch => branch.read
  | none => .ok .empty

/-- The texts of the paths to what is marked. -/
def changedPaths (tree : Tree) : List String :=
  match tree.branch? with
  | some branch => branch.changedPaths ""
  | none => []

end Tree

end ProcessImage.Wire
