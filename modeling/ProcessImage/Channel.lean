import ProcessImage.Legacy.Record
import ProcessImage.Snapshot
import ProcessImage.Wire.Branch

/-!
# Channels

A channel is the network's side of one variable.  It has listeners, it is
connected or not, and it remembers the latest update for those who come late.
Its events are connections, disconnections, updates, and that its value is
dropped.

An update carries a payload of either protocol: a tree, or a legacy record whose
bytes may be missing.
-/

namespace ProcessImage

/-- The ways in which data travel. -/
inductive Protocol where
  | structured
  | legacy
deriving DecidableEq, Repr

/-- Name of a protocol. -/
def Protocol.name : Protocol → String
  | structured => "Structured"
  | legacy => "Legacy"

/-- Data on their way. -/
inductive Payload where
  | structured (tree : Wire.Tree)
  | legacy (tag : Legacy.Tag) (count : Nat) (bytes : Option (List UInt8))

namespace Channel

/-- A value on its way to listeners. -/
structure Update where
  payload : Payload
  metadata : Metadata := {}

/-- What listeners hear of. -/
inductive Event where
  | connected
  | disconnected
  | cleared
  | updated (update : Update)

/-- Who may listen: a variable, or a bare observer. -/
inductive Listener where
  | pv (number : Nat)
  | observer (number : Nat)
deriving DecidableEq, Repr

end Channel

/-- The network's side of a variable.  Each listener stands beside the number of
its subscription, in the order of subscription. -/
structure Channel where
  listeners : List (Nat × Channel.Listener) := []
  connected : Bool := false
  /-- The latest update, unless the value was dropped since. -/
  last : Option Channel.Update := none
deriving Inhabited

namespace Channel

/-- The channel after an event. -/
def after (channel : Channel) : Event → Channel
  | .connected => { channel with connected := true }
  | .disconnected => { channel with connected := false }
  | .cleared => { channel with last := none }
  | .updated update => { channel with last := some update }

/-- What a new listener hears at once: the present state of a connected
channel. -/
def replay (channel : Channel) : List Event :=
  if channel.connected then .connected :: channel.last.toList.map .updated else []

end Channel

end ProcessImage
