import ProcessImage.Ieee.Literal

/-!
# TOML values and tables

A TOML document is a table.  Tables come about in four ways, and the way
decides what may still be added: `[a.b]` defines `b` and implies `a`, a dotted
key makes the tables on its way, and braces make a table that is complete.

`Entries.define`, `Entries.append` and `Entries.put` add to a document what its
lines say, and refuse to say anything twice.
-/

namespace ProcessImage.Toml

/-- How a table came about. -/
inductive Form where
  /-- By the path of a header that defines a table further down. -/
  | implied
  /-- By a dotted key. -/
  | dotted
  /-- By a header of its own. -/
  | defined
  /-- Between braces. -/
  | inline
deriving DecidableEq, Repr

/-- A TOML value. -/
inductive Value where
  | string (text : String)
  | integer (number : Int)
  | float (number : Ieee.Binary64)
  | boolean (truth : Bool)
  | datetime (text : String)
  | array (items : List Value)
  | table (form : Form) (entries : List (String × Value))
  /-- An array of tables, each with a header of its own, the latest first. -/
  | tables (latest : List (String × Value)) (earlier : List (List (String × Value)))

/-- What a table holds, keys in the order of their first appearance. -/
abbrev Entries := List (String × Value)

namespace Entries

/-- Replaces the value of a key, or adds the key. -/
def set (key : String) (value : Value) : Entries → Entries
  | [] => [(key, value)]
  | (first, old) :: rest =>
      if first = key then (first, value) :: rest else (first, old) :: set key value rest

/-- Changes the table at a path from a table of a form.  Tables that are not
there yet are made, in the given form; those that are there may be passed only
if their form allows it.  An array of tables is passed through its latest
one. -/
def changeAt (pass : Form → Bool) (made : Form) (change : Form → Entries → Option Entries) :
    List String → Form → Entries → Option Entries
  | [], form, entries => change form entries
  | key :: rest, _, entries =>
      match entries.lookup key with
      | none =>
          (changeAt pass made change rest made []).map fun inner =>
            set key (.table made inner) entries
      | some (.table form inner) =>
          if pass form then
            (changeAt pass made change rest form inner).map fun inner =>
              set key (.table form inner) entries
          else none
      | some (.tables latest earlier) =>
          (changeAt pass made change rest .defined latest).map fun latest =>
            set key (.tables latest earlier) entries
      | some _ => none

/-- Whether a header may lead through a table. -/
def headerPasses : Form → Bool
  | .inline => false
  | _ => true

/-- Whether a dotted key may lead through a table. -/
def dottedPasses : Form → Bool
  | .implied | .dotted => true
  | .defined | .inline => false

/-- Defines a table under a key, unless the key is there for more than the
tables that it holds. -/
def defineHere (key : String) (_ : Form) (entries : Entries) : Option Entries :=
  match entries.lookup key with
  | none => some (set key (.table .defined []) entries)
  | some (.table .implied inner) => some (set key (.table .defined inner) entries)
  | some _ => none

/-- Starts a new table of an array under a key. -/
def appendHere (key : String) (_ : Form) (entries : Entries) : Option Entries :=
  match entries.lookup key with
  | none => some (set key (.tables [] []) entries)
  | some (.tables latest earlier) => some (set key (.tables [] (latest :: earlier)) entries)
  | some _ => none

/-- Puts a value under a new key.  At the end of a dotted key stands a table
that dotted keys made. -/
def putHere (isDotted : Bool) (key : String) (value : Value) (form : Form) (entries : Entries) :
    Option Entries :=
  if isDotted = decide (form = .dotted) ∧ (entries.lookup key).isNone then
    some (entries ++ [(key, value)])
  else none

/-- What a header in single brackets says. -/
def define (path : List String) (key : String) (root : Entries) : Option Entries :=
  changeAt headerPasses .implied (defineHere key) path .defined root

/-- What a header in double brackets says. -/
def append (path : List String) (key : String) (root : Entries) : Option Entries :=
  changeAt headerPasses .implied (appendHere key) path .defined root

/-- What a key with a value says in a table of a form. -/
def put (path : List String) (key : String) (value : Value) (form : Form) (entries : Entries) :
    Option Entries :=
  changeAt dottedPasses .dotted (putHere (!path.isEmpty) key value) path form entries

/-- What a key with a value says below a header. -/
def putBelow (header path : List String) (key : String) (value : Value) (root : Entries) :
    Option Entries :=
  changeAt headerPasses .implied (put path key value) header .defined root

end Entries

end ProcessImage.Toml
