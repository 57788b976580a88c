import ProcessImage.Network
import ProcessImage.Variable

/-!
# Stations

A station is a network together with the variables and the bare observers that
live on it.  Each operation runs to its end before the next one starts: an event
reaches the listeners of its channel in the order of their subscription, and a
variable calls its callbacks before the next listener hears of the event.

A callback may write to its variable.  An echoed write is delivered to all
listeners at once, in the middle of the delivery that caused it.  Callbacks
write according to finite plans, and the number of writes that are left bounds
how deep deliveries can nest; `Station.writer` is the recursion over that bound.

All operations add what happens to the history of the station.
-/

namespace ProcessImage

/-- What can be seen at a station. -/
inductive Station.Event where
  | callback (pv : Nat) (event : Cache.Event)
  | observed (observer : Nat) (event : Channel.Event)

/-- A network and those who live on it, by number. -/
structure Station where
  network : Network
  /-- The variables; the place of one that was dropped stays free. -/
  pvs : List (Option Variable) := []
  /-- The channels and subscriptions of bare observers. -/
  observers : List (String × Nat) := []
  history : List (Entry Station.Event) := []

namespace Station

/-- A station where nothing has happened. -/
def ofProtocol (protocol : Protocol) : Station where
  network := { protocol }

/-- A way in which a callback writes a value to a variable. -/
abbrev Writer := Nat → Value → Station → Station

/-! ## Parts -/

/-- The variable of a number. -/
def pv? (station : Station) (number : Nat) : Option Variable :=
  station.pvs[number]?.join

/-- Adds to the history. -/
def record (station : Station) (entries : List (Entry Station.Event)) : Station :=
  { station with history := station.history ++ entries }

/-- Adds notes to the history. -/
def leave (station : Station) (notes : List Note) : Station :=
  station.record (notes.map .note)

/-- Replaces the cache of a variable. -/
def setCache (station : Station) (number : Nat) (cache : Cache) : Station :=
  { station with
    pvs := station.pvs.modify number (·.map fun pv => { pv with cache }) }

/-- Number of writes that callbacks may still make. -/
def writesLeft (station : Station) : Nat :=
  station.pvs.foldr (fun pv total => (pv.map (·.cache.writesLeft)).getD 0 + total) 0

/-! ## Delivery -/

/-- Calls a callback of a variable. -/
def call (set : Writer) (number : Nat) (snapshot : Snapshot) (station : Station)
    (callback : Nat × Cache.Reaction) : Station :=
  match station.pv? number with
  | none => station
  | some pv =>
      let (cache, events) := pv.cache.call Cache.keep snapshot callback
      let called := (station.setCache number (cache.advance callback.1)).record
        (events.map (.map (.callback number)))
      match pv.cache.planned? callback.1 with
      | some value => set number value called
      | none => called

/-- Changes the cache of a variable and calls its callbacks. -/
def changeCache (set : Writer) (number : Nat) (pv : Variable) (change : Cache.Change)
    (station : Station) : Station :=
  let cache := { pv.cache with state := pv.cache.state.after change }
  let changed := (station.setCache number cache).leave change.notes
  cache.callbacks.foldl (call set number cache.state.snapshot) changed

/-- Lets a variable hear of an event.  What it cannot decode changes nothing. -/
def hear (set : Writer) (event : Channel.Event) (station : Station) (number : Nat) : Station :=
  match station.pv? number with
  | none => station
  | some pv =>
      let noted := station.leave (pv.eventNotes event)
      match pv.changeOf event with
      | .ok change => noted.changeCache set number pv change
      | .error _ => noted

/-- Delivers an event to one listener. -/
def deliver (set : Writer) (event : Channel.Event) (station : Station) :
    Channel.Listener → Station
  | .pv number => station.hear set event number
  | .observer number => station.record [.event (.observed number event)]

/-- Delivers an event to those who listen to its channel, once the channel has
taken notice of it. -/
def dispatch (set : Writer) (name : String) (event : Channel.Event) (station : Station) : Station :=
  let changed := { station with network := station.network.change name (·.after event) }
  (changed.network.listeners name).foldl (deliver set event) changed

/-! ## Writes -/

/-- Takes a write to a channel, and yields its number. -/
def submitWith (set : Writer) (name : String) (payload : Payload) (station : Station) :
    Except Fault (Station × Nat) := do
  let (network, number) ← station.network.submit name payload
  let taken := { station with network }
  match network.mode with
  | .echo => return (taken.dispatch set name (.updated { payload }), number)
  | .hold => return (taken, number)
  | .reject => return (taken.leave [.warn ("[loopback] write to " ++ name ++ " rejected")], number)

/-- What becomes of a write. -/
def await (station : Station) (write : Nat) : Station × Network.Outcome :=
  let (network, outcome) := station.network.await write
  ({ station with network }, outcome)

/-- Sends a payload for a variable, and tells whether it was confirmed. -/
def send (set : Writer) (pv : Variable) (payload : Payload) (station : Station) :
    Station × Bool :=
  match station.submitWith set pv.name payload with
  | .error fault =>
      (station.leave [.warn (pv.label ++ " write refused: " ++ fault.message)], false)
  | .ok (taken, write) =>
      match taken.await write with
      | (settled, .success) => (settled, true)
      | (settled, outcome) =>
          (settled.leave [.warn (pv.label ++ " write ended with " ++ outcome.name)], false)

/-- Writes a value to a variable, and tells whether that was confirmed.  Nothing
is sent while it is disconnected, or for a value without payload. -/
def trySetWith (set : Writer) (number : Nat) (value : Value) (station : Station) :
    Station × Except Fault Bool :=
  match station.pv? number with
  | none => (station, .ok false)
  | some pv =>
      if pv.cache.state.isConnected then
        let noted := station.leave (pv.encodeNotes station.network.protocol value)
        match pv.encode station.network.protocol value with
        | .error fault => (noted, .error fault)
        | .ok none => (noted, .ok false)
        | .ok (some payload) =>
            let (sent, done) := noted.send set pv payload
            (sent, .ok done)
      else (station.leave [.debug (pv.label ++ " not connected, write skipped")], .ok false)

/-- The name of a variable, as notes call it. -/
def labelOf (station : Station) (number : Nat) : String :=
  ((station.pv? number).map Variable.label).getD ""

/-- Writes a value to a variable, where a fault counts as not confirmed. -/
def setWith (set : Writer) (number : Nat) (value : Value) (station : Station) : Station × Bool :=
  match station.trySetWith set number value with
  | (after, .ok done) => (after, done)
  | (after, .error fault) =>
      (after.leave [.error (station.labelOf number ++ " write failed: " ++ fault.message)], false)

/-- How callbacks write, to a given depth of nested deliveries. -/
def writer : Nat → Writer
  | 0 => fun _ _ station => station
  | depth + 1 => fun number value station => (station.setWith (writer depth) number value).1

/-- How callbacks write at a station.  As each write uses up one of those that
are left, deliveries never nest deeper than this allows. -/
def callbackWriter (station : Station) : Writer :=
  writer station.writesLeft

/-! ## Operations on channels -/

/-- Connects a channel. -/
def connect (station : Station) (name : String) : Station :=
  (station.leave [.debug ("[loopback] " ++ name ++ " connected")]).dispatch
    station.callbackWriter name .connected

/-- Disconnects a channel. -/
def disconnect (station : Station) (name : String) : Station :=
  (station.leave [.debug ("[loopback] " ++ name ++ " disconnected")]).dispatch
    station.callbackWriter name .disconnected

/-- Drops the value of a channel. -/
def clear (station : Station) (name : String) : Station :=
  station.dispatch station.callbackWriter name .cleared

/-- Sends an update to those who listen to a channel. -/
def post (station : Station) (name : String) (update : Channel.Update) : Station :=
  station.dispatch station.callbackWriter name (.updated update)

/-- Changes how writes are treated from now on. -/
def setMode (station : Station) (mode : Network.Mode) : Station :=
  { station with network := { station.network with mode } }

/-- Writes a payload to a channel, and yields the number of the write. -/
def submit (station : Station) (name : String) (payload : Payload) :
    Except Fault (Station × Nat) :=
  station.submitWith station.callbackWriter name payload

/-- Releases all held writes with one outcome, and yields their number. -/
def release (station : Station) (outcome : Network.Outcome) : Station × Nat :=
  let (network, count) := station.network.release outcome
  ({ station with network }, count)

/-! ## Observers -/

/-- Lets a bare observer listen to a channel, and yields its number. -/
def observe (station : Station) (name : String) : Except Fault (Station × Nat) := do
  let observer := station.observers.length
  let (network, subscription) ← station.network.subscribe name (.observer observer)
  let listening := { station with network, observers := station.observers ++ [(name, subscription)] }
  let replayed := (network.channel name).replay.foldl
    (fun station event => station.deliver station.callbackWriter event (.observer observer)) listening
  return (replayed, observer)

/-- Lets an observer hear no more. -/
def dismiss (station : Station) (observer : Nat) : Station :=
  match station.observers[observer]? with
  | some (name, subscription) =>
      { station with network := station.network.unsubscribe name subscription }
  | none => station

/-! ## Variables -/

/-- Makes a variable on a channel of its name, and yields its number. -/
def addVariable (station : Station) (name : String) (type : DataType) (settings : Settings) :
    Except Fault (Station × Nat) := do
  Variable.validate station.network.protocol type settings
  let number := station.pvs.length
  let (network, subscription) ← station.network.subscribe name (.pv number)
  let pv : Variable := { name, type, settings, subscription }
  let listening := { station with network, pvs := station.pvs ++ [some pv] }
  let replayed := (network.channel name).replay.foldl
    (fun station event => station.deliver station.callbackWriter event (.pv number)) listening
  return (replayed.leave [.debug (pv.label ++ " subscribed as " ++ type.text)], number)

/-- Drops a variable. -/
def dropVariable (station : Station) (number : Nat) : Station :=
  match station.pv? number with
  | some pv =>
      { station with
        network := station.network.unsubscribe pv.name pv.subscription
        pvs := station.pvs.set number none }
  | none => station

/-- Writes a value to a variable, and tells whether that was confirmed. -/
def set (station : Station) (number : Nat) (value : Value) : Station × Bool :=
  station.setWith station.callbackWriter number value

/-- Writes a value to a variable, and tells whether that was confirmed or why
the value could not be sent. -/
def trySet (station : Station) (number : Nat) (value : Value) : Station × Except Fault Bool :=
  station.trySetWith station.callbackWriter number value

/-- Registers a callback of a variable, and yields its number. -/
def onUpdate (station : Station) (number : Nat) (reaction : Cache.Reaction) :
    Option (Station × Nat) :=
  (station.pv? number).map fun pv =>
    let (cache, callback) := pv.cache.subscribe reaction
    (station.setCache number cache, callback)

/-- Removes a callback of a variable, and tells whether it was registered. -/
def removeCallback (station : Station) (number callback : Nat) : Option (Station × Bool) :=
  (station.pv? number).map fun pv =>
    let (cache, done) := pv.cache.unsubscribe callback
    (station.setCache number cache, done)

end Station

end ProcessImage
