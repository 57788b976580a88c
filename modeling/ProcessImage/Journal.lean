/-!
# The journal

Operations leave notes for whoever watches the system.  A note has a level and
a text, and it never influences what an operation does.

A history holds notes and other events in the order in which they happen.
-/

namespace ProcessImage

/-- How much a note matters. -/
inductive Level where
  | debug
  | warn
  | error
deriving DecidableEq, Repr

/-- Name of a level. -/
def Level.name : Level → String
  | debug => "debug"
  | warn => "warn"
  | error => "error"

/-- One note. -/
structure Note where
  level : Level
  text : String
deriving DecidableEq, Repr

namespace Note

/-- A note that only helps to follow what happens. -/
def debug (text : String) : Note := ⟨.debug, text⟩

/-- A note on something that went other than it was asked. -/
def warn (text : String) : Note := ⟨.warn, text⟩

/-- A note on something that was lost. -/
def error (text : String) : Note := ⟨.error, text⟩

end Note

/-- One thing that happens: a note is left, or an event of some type occurs. -/
inductive Entry (ε : Type) where
  | note (note : Note)
  | event (event : ε)

namespace Entry

variable {ε φ : Type}

/-- The note that an entry is. -/
def note? : Entry ε → Option Note
  | note one => some one
  | event _ => none

/-- The event that an entry is. -/
def event? : Entry ε → Option ε
  | note _ => none
  | event one => some one

/-- The entry with its event changed. -/
def map (change : ε → φ) : Entry ε → Entry φ
  | note one => note one
  | event one => event (change one)

end Entry

end ProcessImage
