import ProcessImage.Journal
import ProcessImage.Legacy.Slot
import ProcessImage.Value.Coercion

/-!
# Legacy records

A record is a row of slots of one tag.  `read` makes a value of a type from the
bytes of a record, and `write` makes the record of a value.

A record without bytes to write is the answer for a value that does not convert
to the type or does not fit its slots: nothing should be sent for it.  Text
that is longer than its slot is cut at the width of the slot, which may split
its last character, and the record says so.
-/

namespace ProcessImage.Legacy

/-- A record that was made for a value. -/
structure Record where
  tag : Tag
  /-- Number of slots. -/
  count : Nat
  bytes : List UInt8
  /-- Whether a text was cut. -/
  truncated : Bool
deriving DecidableEq

/-- Whether there is nothing to send. -/
def Record.isEmpty (record : Record) : Bool :=
  record.bytes.isEmpty

/-- The record with nothing to send. -/
def Record.none (tag : Tag) : Record := ⟨tag, 0, [], false⟩

/-! ## Reading -/

/-- The first slots of the given bytes. -/
def slots (width : Nat) : Nat → List UInt8 → List (List UInt8)
  | 0, _ => []
  | count + 1, bytes => bytes.take width :: slots width count (bytes.drop width)

namespace Layout

/-- Number of slots that can be read: as many as are announced, or as many
whole ones as there are. -/
def readable (layout : Layout) (tag : Tag) (bytes : List UInt8) (count : Nat) : Nat :=
  min count (bytes.length / layout.slotWidth tag)

/-- The data in the slots of a record, when all of them convert to the kind. -/
def readData (layout : Layout) (kind : Kind) (bytes : List UInt8) (count : Nat) :
    Option (List Scalar) :=
  let tag := Tag.ofKind kind
  (slots (layout.slotWidth tag) (layout.readable tag bytes count) bytes).mapM (readSlot tag kind)

/-- The value of a type that data make: an array of them, or the first one. -/
def assemble (type : DataType) (data : List Scalar) : Value :=
  match type with
  | .array name element length => .array name element length (data.map .scalar)
  | _ =>
      match data with
      | datum :: _ => .scalar datum
      | [] => .empty

/-- The value of a type in a record of at most the given number of slots.
Missing bytes, slots without width and data that do not convert are no value. -/
def read (layout : Layout) (type : DataType) (count : Nat) :
    Option (List UInt8) → Except Fault Value
  | none => .ok .empty
  | some bytes => do
      let kind ← carriedKind type
      if layout.slotWidth (.ofKind kind) = 0 then return .empty
      else
        match layout.readData kind bytes count with
        | some data => return assemble type data
        | none => return .empty

/-- What the journal says when a record is read. -/
def readNotes (layout : Layout) (type : DataType) (count : Nat) : Option (List UInt8) → List Note
  | none => []
  | some bytes =>
      match type.elementKind? with
      | none => []
      | some kind =>
          let tag := Tag.ofKind kind
          if layout.slotWidth tag = 0 then []
          else
            let available := bytes.length / layout.slotWidth tag
            (if available < count then
              [.debug ("[legacy] buffer holds " ++ toString available ++ " of " ++ toString count ++
                " " ++ tag.name ++ " slots")]
            else []) ++
            (if (layout.readData kind bytes count).isNone then
              [.debug ("[legacy] " ++ tag.name ++ " slot does not convert to " ++ kind.name)]
            else [])

/-! ## Writing -/

/-- The data in a value of a scalar type or of an array of scalars. -/
def dataOf : Value → List Scalar
  | .scalar datum => [datum]
  | .array _ _ _ elements => elements.filterMap Value.scalar?
  | _ => []

/-- Whether any of the slots has more bytes than its width. -/
def cuts (width : Nat) (rows : List (List UInt8)) : Bool :=
  rows.any fun row => width < row.length

/-- The record of a value in a type. -/
def write (layout : Layout) (type : DataType) (value : Value) : Except Fault Record := do
  let tag ← tagOfType type
  match value.coerce? type with
  | none => return .none tag
  | some coerced =>
      let data := dataOf coerced
      match data.mapM (slotBytes tag) with
      | none => return .none tag
      | some rows =>
          let width := layout.slotWidth tag
          return ⟨tag, data.length, rows.flatMap (fill width), tag = .string ∧ cuts width rows⟩

/-- What the journal says when a record is written. -/
def writeNotes (layout : Layout) (type : DataType) (value : Value) : List Note :=
  match tagOfType type with
  | .error _ => []
  | .ok tag =>
      match value.coerce? type with
      | none =>
          [.warn ("[legacy] cannot convert " ++ value.typeOf.text ++ " to " ++ type.text)]
      | some coerced =>
          let data := dataOf coerced
          match data.find? fun datum => (slotBytes tag datum).isNone with
          | some datum =>
              [.warn ("[legacy] " ++ datum.text ++ " does not fit a " ++ tag.name ++ " slot")]
          | none =>
              let width := layout.slotWidth tag
              if tag = .string ∧ cuts width (data.filterMap (slotBytes tag)) then
                [.warn ("[legacy] string truncated to " ++ toString width ++ " bytes for " ++
                  type.text ++ " update")]
              else []

end Layout

end ProcessImage.Legacy
