import ProcessImage.Value.Path

/-!
# Taking over parts of a value

An update may concern some places of a value only.  Where all these places
exist in the old value as well as in the new one, `Value.adopt` copies them,
one after the other, and leaves the rest of the old value as it is.
-/

namespace ProcessImage

namespace Value

/-- Whether a place exists in a value. -/
def hasPath (value : Value) (path : Path) : Bool :=
  (value.get? path).isSome

/-- The value with one place taken from a source, if it exists in both. -/
def adoptAt (value source : Value) (path : Path) : Value :=
  ((source.get? path).bind (value.set? · path)).getD value

/-- The value with places taken from a source. -/
def adopt (value source : Value) (paths : List Path) : Value :=
  paths.foldl (fun value path => value.adoptAt source path) value

end Value

end ProcessImage
