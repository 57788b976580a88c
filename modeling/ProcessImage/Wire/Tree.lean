import ProcessImage.Value.Path
import ProcessImage.Wire.Datum
import ProcessImage.Wire.Schema

/-!
# Trees of the structured protocol

A `Tree` keeps its nodes in one array, and nodes refer to each other by their
numbers.  Nodes are only ever added: a structure follows its members, elements
that an array gains and the member that a union selects come at the end, and
what an array or a union lets go of stays behind, out of reach of the root.

Every node carries its schema and a mark that setters raise.  The marks tell
which parts of a tree an update carries.
-/

namespace ProcessImage.Wire

/-- What a node holds; references are node numbers. -/
inductive Content where
  | scalar (datum : Datum)
  | scalarArray (items : DatumArray)
  | struct (members : List Nat)
  | structArray (elements : List Nat)
  /-- The position of the selected member and its node. -/
  | union (selected : Option (Nat × Nat))
  | unionArray (elements : List Nat)
deriving DecidableEq

/-- One node of a tree. -/
structure Node where
  schema : Schema
  content : Content
  changed : Bool := false
deriving DecidableEq

/-- A tree, or the absent tree that has no root. -/
structure Tree where
  nodes : Array Node := #[]
  root : Option Nat := none
deriving DecidableEq

/-! ## Allocation -/

/-- The items of a fresh array of scalars: as many zeros as a fixed length
wants. -/
def freshItems (tag : Tag) (length : Option Nat) : List Datum :=
  match tag.arrayElement?, length with
  | some element, some length => List.replicate length (.zeroOf element)
  | _, _ => []

/-- The datum of a fresh scalar.  A tag that is not that of a scalar gets a
truth value. -/
def freshDatum : Tag → Datum
  | .scalar element => .zeroOf element
  | _ => .zeroOf .boolean

mutual

/-- Adds the nodes of a schema and yields the number of the topmost one, which
comes last. -/
def alloc : Schema → Array Node → Array Node × Nat
  | .scalar tag, nodes => (nodes.push ⟨.scalar tag, .scalar (freshDatum tag), false⟩, nodes.size)
  | .scalarArray tag name length, nodes =>
      (nodes.push ⟨.scalarArray tag name length, .scalarArray ⟨tag, freshItems tag length⟩, false⟩,
        nodes.size)
  | .struct id members, nodes =>
      let (nodes, children) := allocMembers members nodes
      (nodes.push ⟨.struct id members, .struct children, false⟩, nodes.size)
  | .structArray id members name length, nodes =>
      (nodes.push ⟨.structArray id members name length, .structArray [], false⟩, nodes.size)
  | .union id members, nodes => (nodes.push ⟨.union id members, .union none, false⟩, nodes.size)
  | .unionArray id members, nodes =>
      (nodes.push ⟨.unionArray id members, .unionArray [], false⟩, nodes.size)

/-- Adds the nodes of members in order. -/
def allocMembers : List (String × Schema) → Array Node → Array Node × List Nat
  | [], nodes => (nodes, [])
  | (_, schema) :: rest, nodes =>
      let (nodes, child) := alloc schema nodes
      let (nodes, children) := allocMembers rest nodes
      (nodes, child :: children)

end

/-- Adds the nodes of a schema several times over. -/
def allocCopies (schema : Schema) : Nat → Array Node → Array Node × List Nat
  | 0, nodes => (nodes, [])
  | count + 1, nodes =>
      let (nodes, copy) := alloc schema nodes
      let (nodes, copies) := allocCopies schema count nodes
      (nodes, copy :: copies)

namespace Tree

/-- A tree of a schema that holds nothing but zeros. -/
def ofSchema (schema : Schema) : Tree :=
  let (nodes, root) := alloc schema #[]
  ⟨nodes, some root⟩

/-- Whether the tree is absent. -/
def isEmpty (tree : Tree) : Bool :=
  tree.root.isNone

/-- The node of a number. -/
def node? (tree : Tree) (id : Nat) : Option Node :=
  tree.nodes[id]?

/-- The node of a number, or the refusal of that number. -/
def node (tree : Tree) (id : Nat) : Except Fault Node :=
  match tree.node? id with
  | some node => .ok node
  | none => .error (.noNode id)

/-- The schema of the root. -/
def schema? (tree : Tree) : Option Schema :=
  (tree.root.bind tree.node?).map (·.schema)

/-! ## Finding nodes -/

/-- The members of a structure, with their names. -/
def members (tree : Tree) (id : Nat) : List (String × Nat) :=
  match tree.node? id with
  | some ⟨.struct _ members, .struct children, _⟩ => (members.map (·.1)).zip children
  | _ => []

/-- The first member of a name. -/
def member? (tree : Tree) (id : Nat) (name : String) : Option Nat :=
  (tree.members id).lookup name

/-- The node at a path from the root through members of structures. -/
def find? (tree : Tree) (path : Path) : Option Nat :=
  tree.root.bind fun root => path.foldlM tree.member? root

/-! ## Setting nodes -/

/-- Gives a node new content and marks it. -/
def store (tree : Tree) (id : Nat) (content : Content) : Tree :=
  { tree with nodes := tree.nodes.modify id fun node => { node with content, changed := true } }

/-- Sets a scalar.  The new datum has to be the element that the old one is. -/
def putScalar (tree : Tree) (id : Nat) (datum : Datum) : Except Fault Tree := do
  let node ← tree.node id
  match node.content with
  | .scalar current =>
      if current.element = datum.element then return tree.store id (.scalar datum)
      else throw (.mismatch (.tag node.schema.tag) (.tag datum.tag))
  | _ => throw (.mismatch (.tag node.schema.tag) (.tag datum.tag))

/-- Sets an array of scalars.  Its tag has to be that of the node, and a fixed
length has to hold. -/
def putScalarArray (tree : Tree) (id : Nat) (items : DatumArray) : Except Fault Tree := do
  let node ← tree.node id
  match node.schema with
  | .scalarArray tag _ length =>
      if tag = items.tag then
        match length with
        | some length =>
            if items.items.length = length then return tree.store id (.scalarArray items)
            else throw (.mismatch (.elements length) (.elements items.items.length))
        | none => return tree.store id (.scalarArray items)
      else throw (.mismatch (.tag tag) (.tag items.tag))
  | schema => throw (.mismatch (.tag schema.tag) (.tag items.tag))

/-- Cuts an array of structures, or extends it by fresh elements, and yields
the nodes of all elements that it has then. -/
def resize (tree : Tree) (id : Nat) (length : Nat) : Except Fault (Tree × List Nat) := do
  let node ← tree.node id
  match node.content, node.schema with
  | .structArray current, .structArray structId members _ _ =>
      let kept := current.take length
      let (nodes, added) :=
        allocCopies (.struct structId members) (length - kept.length) tree.nodes
      return ({ tree with nodes }.store id (.structArray (kept ++ added)), kept ++ added)
  | _, schema => throw (.mismatch (.tag .structArray) (.tag schema.tag))

/-- Selects a member of a union, with a fresh node even for the member that was
selected before, and yields that node. -/
def select (tree : Tree) (id : Nat) (name : String) : Except Fault (Tree × Nat) := do
  let node ← tree.node id
  match node.schema with
  | .union _ members =>
      match members.findIdx? (·.1 == name), members.lookup name with
      | some position, some schema =>
          let (nodes, child) := alloc schema tree.nodes
          return ({ tree with nodes }.store id (.union (some (position, child))), child)
      | _, _ => throw (.mismatch .unionMember (.name name))
  | schema => throw (.mismatch (.tag .union) (.tag schema.tag))

/-! ## Marks -/

/-- Marks a node, if there is one of the number. -/
def mark (tree : Tree) (id : Nat) : Tree :=
  { tree with nodes := tree.nodes.modify id fun node => { node with changed := true } }

/-- Marks the root, and with it all that is below. -/
def markRoot (tree : Tree) : Tree :=
  match tree.root with
  | some root => tree.mark root
  | none => tree

/-- Takes all marks away. -/
def unmarkAll (tree : Tree) : Tree :=
  { tree with nodes := tree.nodes.map fun node => { node with changed := false } }

end Tree

end ProcessImage.Wire
