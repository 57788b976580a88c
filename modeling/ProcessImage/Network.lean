import ProcessImage.Channel

/-!
# Networks

A network holds channels by name.  A channel comes into being when something
happens to it or when someone listens to it.  Who listens gets a subscription
number that is never used again.

Writes are kept in the order in which they were taken.  According to the mode
of the network a write is confirmed at once, held until all held writes are
released, or refused.  The answer to a write can be taken once; after that the
write counts as interrupted.
-/

namespace ProcessImage

namespace Network

/-- How writes are treated. -/
inductive Mode where
  /-- They are confirmed, and come back as updates. -/
  | echo
  /-- They are held. -/
  | hold
  /-- They are refused. -/
  | reject
deriving DecidableEq, Repr

/-- Name of a mode. -/
def Mode.name : Mode → String
  | echo => "Echo"
  | hold => "Hold"
  | reject => "Reject"

/-- What becomes of a write. -/
inductive Outcome where
  | success
  | timeout
  | interrupted
deriving DecidableEq, Repr

/-- Name of an outcome. -/
def Outcome.name : Outcome → String
  | success => "Success"
  | timeout => "Timeout"
  | interrupted => "Interrupted"

/-- How far a write has come. -/
inductive Progress where
  /-- It is held. -/
  | held
  /-- Its outcome waits to be taken. -/
  | settled (outcome : Outcome)
  /-- Its outcome was taken. -/
  | taken
deriving DecidableEq, Repr

/-- How far a write comes at once. -/
def Mode.progress : Mode → Progress
  | echo => .settled .success
  | hold => .held
  | reject => .settled .interrupted

namespace Progress

/-- What waiting yields. -/
def outcome : Progress → Outcome
  | held => .timeout
  | settled outcome => outcome
  | taken => .interrupted

/-- How far a write has come after waiting. -/
def afterWait : Progress → Progress
  | held => held
  | settled _ | taken => taken

/-- How far a write has come after a release. -/
def release (outcome : Outcome) : Progress → Progress
  | held => settled outcome
  | progress => progress

/-- Whether a write is held. -/
def isHeld : Progress → Bool
  | held => true
  | _ => false

end Progress

/-- A write that was taken. -/
structure Write where
  channel : String
  payload : Payload
  progress : Progress

end Network

/-- Channels by name, and the writes taken so far. -/
structure Network where
  protocol : Protocol
  channels : List (String × Channel) := []
  mode : Network.Mode := .echo
  writes : List Network.Write := []
  /-- The number for the next subscription. -/
  next : Nat := 0

namespace Network

/-! ## Channels -/

/-- The channel of a name; one that nobody used yet is as a new one. -/
def channel (network : Network) (name : String) : Channel :=
  (network.channels.lookup name).getD {}

/-- Channels with the one of a name replaced, or added. -/
def putChannel (name : String) (channel : Channel) :
    List (String × Channel) → List (String × Channel)
  | [] => [(name, channel)]
  | (first, old) :: rest =>
      if first = name then (first, channel) :: rest
      else (first, old) :: putChannel name channel rest

/-- Changes the channel of a name. -/
def change (network : Network) (name : String) (change : Channel → Channel) : Network :=
  { network with channels := putChannel name (change (network.channel name)) network.channels }

/-- Whether a channel is connected. -/
def isConnected (network : Network) (name : String) : Bool :=
  (network.channel name).connected

/-- Those who listen to a channel, in the order of their subscription. -/
def listeners (network : Network) (name : String) : List Channel.Listener :=
  (network.channel name).listeners.map (·.2)

/-- Lets someone listen to a channel, and yields the number of the
subscription. -/
def subscribe (network : Network) (name : String) (listener : Channel.Listener) :
    Except Fault (Network × Nat) :=
  if name = "" then .error .emptyChannelName
  else
    let number := network.next
    let changed := network.change name fun channel =>
      { channel with listeners := channel.listeners ++ [(number, listener)] }
    .ok ({ changed with next := number + 1 }, number)

/-- Ends a subscription to a channel. -/
def unsubscribe (network : Network) (name : String) (number : Nat) : Network :=
  network.change name fun channel =>
    { channel with listeners := channel.listeners.filter (·.1 != number) }

/-! ## Writes -/

/-- Takes a write to a connected channel, and yields its number. -/
def submit (network : Network) (name : String) (payload : Payload) :
    Except Fault (Network × Nat) :=
  if network.isConnected name then
    let write : Write := ⟨name, payload, network.mode.progress⟩
    .ok ({ network with writes := network.writes ++ [write] }, network.writes.length)
  else .error (.notConnected name)

/-- What becomes of the write of a number as long as one is willing to wait. -/
def await (network : Network) (number : Nat) : Network × Outcome :=
  match network.writes[number]? with
  | some write =>
      ({ network with
          writes := network.writes.set number { write with progress := write.progress.afterWait } },
        write.progress.outcome)
  | none => (network, .interrupted)

/-- Number of writes that are held. -/
def heldCount (network : Network) : Nat :=
  network.writes.countP (·.progress.isHeld)

/-- Releases all held writes with one outcome, and yields their number. -/
def release (network : Network) (outcome : Outcome) : Network × Nat :=
  ({ network with
      writes := network.writes.map fun write =>
        { write with progress := write.progress.release outcome } },
    network.heldCount)

end Network

end ProcessImage
