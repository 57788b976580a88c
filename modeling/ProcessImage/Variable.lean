import ProcessImage.Cache
import ProcessImage.Channel
import ProcessImage.Settings
import ProcessImage.Wire.Assign

/-!
# Variables

A variable binds a type and a cache to a channel.  Its cache changes only by
what the channel tells, so a value that is written shows when it comes back.

`Variable.decode` is what a payload means to a variable, and `Variable.encode`
is what it sends for a value.  On the structured protocol a payload describes
itself, and a variable of the empty type sends any value as it is; on the legacy
protocol the type says how to read and write the slots.
-/

namespace ProcessImage

/-- A variable, from its own side. -/
structure Variable where
  name : String
  type : DataType
  settings : Settings := {}
  /-- The number of its subscription to its channel. -/
  subscription : Nat
  cache : Cache := {}

namespace Variable

/-- Why there can be no variable of a type with some settings, if so. -/
def validate (protocol : Protocol) (type : DataType) (settings : Settings) : Except Fault Unit := do
  settings.validate
  match protocol with
  | .structured => return ()
  | .legacy => discard (Legacy.tagOfType type)

/-! ## What a channel tells -/

/-- The value in a payload, and the paths to what is new in it. -/
def decode (pv : Variable) : Payload → Except Fault (Value × List Path)
  | .structured tree => do
      let value ← tree.read
      return (value, tree.changedPaths.map Path.ofText)
  | .legacy _ count bytes => do
      let value ← pv.settings.layout.read pv.type count bytes
      return (value, [])

/-- What an event does to the cache. -/
def changeOf (pv : Variable) : Channel.Event → Except Fault Cache.Change
  | .connected => .ok .connected
  | .disconnected => .ok .disconnected
  | .cleared => .ok .cleared
  | .updated update => do
      let (value, changed) ← pv.decode update.payload
      return .updated value changed update.metadata

/-- What the journal says while a payload is read. -/
def payloadNotes (pv : Variable) : Payload → List Note
  | .structured _ => []
  | .legacy _ count bytes => pv.settings.layout.readNotes pv.type count bytes

/-- The beginning of notes on a pv. -/
def label (pv : Variable) : String :=
  "[pv] " ++ pv.name

/-- What the journal says when an event is heard. -/
def eventNotes (pv : Variable) : Channel.Event → List Note
  | .updated update =>
      pv.payloadNotes update.payload ++
        match pv.decode update.payload with
        | .ok (_, changed) =>
            [.debug (pv.label ++ " update (" ++ toString changed.length ++ " changed paths)")]
        | .error fault =>
            [.error (pv.label ++ " dropped undecodable update: " ++ fault.message)]
  | _ => []

/-! ## What is sent -/

/-- The value that is sent on the structured protocol. -/
def converted (pv : Variable) (value : Value) : Except Fault Value :=
  if pv.type.isEmpty then .ok value
  else
    match value.coerce? pv.type with
    | some converted => .ok converted
    | none => .error (.mismatch (.type pv.type) (.type value.typeOf))

/-- The payload that is sent for a value.  There is none for a value that does
not fit the slots of the legacy protocol. -/
def encode (pv : Variable) (protocol : Protocol) (value : Value) :
    Except Fault (Option Payload) :=
  match protocol with
  | .structured => do
      let tree ← Wire.Tree.ofValue (← pv.converted value)
      return some (.structured tree)
  | .legacy => do
      let record ← pv.settings.layout.write pv.type value
      return if record.isEmpty then none
        else some (.legacy record.tag record.count (some record.bytes))

/-- What the journal says while a payload is made. -/
def encodeNotes (pv : Variable) (protocol : Protocol) (value : Value) : List Note :=
  match protocol with
  | .structured =>
      match pv.converted value with
      | .ok converted => Wire.Tree.ofValueNotes converted
      | .error _ => []
  | .legacy => pv.settings.layout.writeNotes pv.type value

end Variable

end ProcessImage
