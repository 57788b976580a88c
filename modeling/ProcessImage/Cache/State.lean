import ProcessImage.Journal
import ProcessImage.Snapshot
import ProcessImage.Value.Merge

/-!
# States of a cache

The state of a cache is the snapshot of one variable and whether the value in
it was delivered.  It changes by connections and disconnections, by updates and
when the value is dropped; nothing else changes it.

A disconnected variable shows no value, but the state keeps the last one for
the next connection.
-/

namespace ProcessImage.Cache

/-- What can happen to a cache. -/
inductive Change where
  | connected
  | disconnected
  | cleared
  /-- A value is delivered, of which the places at the given paths are new; no
  paths at all mean that all of it is. -/
  | updated (value : Value) (changed : List Path) (metadata : Metadata)

/-- What the journal says about a change. -/
def Change.notes : Change → List Note
  | connected => [.debug "[cache] connected"]
  | disconnected => [.debug "[cache] disconnected"]
  | cleared => [.debug "[cache] cleared"]
  | updated .. => []

/-- The snapshot of a variable, and whether a value was delivered since the
beginning or since the value was dropped. -/
structure State where
  snapshot : Snapshot := {}
  valid : Bool := false
deriving Inhabited

namespace State

/-- Whether an update concerns some places only, all of which exist in the old
value and in the new one. -/
def isPartial (state : State) (value : Value) (changed : List Path) : Bool :=
  state.valid && !state.snapshot.value.isEmpty && !value.isEmpty && !changed.isEmpty &&
    changed.all fun path =>
      !path.isEmpty && value.hasPath path && state.snapshot.value.hasPath path

/-- The state after an update of places, or of the whole value. -/
def update (state : State) (value : Value) (changed : List Path) (metadata : Metadata) : State :=
  let snapshot := { state.snapshot with metadata := state.snapshot.metadata.overlay metadata }
  if state.isPartial value changed then
    { state with snapshot := { snapshot with value := state.snapshot.value.adopt value changed } }
  else { snapshot := { snapshot with value }, valid := !value.isEmpty }

/-- The state after a change. -/
def after (state : State) : Change → State
  | .connected => { state with snapshot := { state.snapshot with connected := true } }
  | .disconnected => { state with snapshot := { state.snapshot with connected := false } }
  | .cleared => { snapshot := { connected := state.snapshot.connected }, valid := false }
  | .updated value changed metadata => state.update value changed metadata

/-! ## Reading -/

/-- Whether the channel is connected. -/
def isConnected (state : State) : Bool :=
  state.snapshot.connected

/-- The value that shows: the last one while connected, otherwise none. -/
def value (state : State) : Value :=
  if state.isConnected then state.snapshot.value else .empty

/-- Whether the variable is connected and a value was delivered. -/
def hasValidValue (state : State) : Bool :=
  state.isConnected && state.valid

end State

end ProcessImage.Cache
