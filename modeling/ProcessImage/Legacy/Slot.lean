import ProcessImage.Legacy.Tag
import ProcessImage.Scalar.Conversion
import ProcessImage.Text.Utf8

/-!
# One slot of a legacy record

Numbers are written little end first; signed integers in two's complement,
floating-point numbers by their bit patterns.  Text is written as UTF-8, cut to
the width of its slot or filled up with zero bytes, and ends at the first zero
byte when it is read.

Reading looks at nothing but the bytes of one slot, and fails only where the
datum does not convert to the kind that is wanted.
-/

namespace ProcessImage.Legacy

/-! ## Numbers as bytes -/

/-- The lowest bytes of a number, the least significant first. -/
def littleEndian : Nat → Nat → List UInt8
  | 0, _ => []
  | count + 1, number => UInt8.ofNat (number % 256) :: littleEndian count (number / 256)

/-- The number that bytes write, the least significant first. -/
def ofLittleEndian : List UInt8 → Nat
  | [] => 0
  | byte :: rest => byte.toNat + 256 * ofLittleEndian rest

/-- An integer in a number of bytes, negative ones in two's complement. -/
def twosComplement (width : Nat) (number : Int) : List UInt8 :=
  littleEndian width (number % (Nat.pow 256 width : Nat)).toNat

/-- The signed integer that bytes write in two's complement. -/
def ofTwosComplement (bytes : List UInt8) : Int :=
  Int.bmod (ofLittleEndian bytes) (Nat.pow 256 bytes.length)

/-! ## Reading -/

/-- The text in a slot: all of it, or what stands before the first zero byte. -/
def slotText (slot : List UInt8) : String :=
  Text.decode (slot.takeWhile (· ≠ 0))

/-- The datum of a kind that a slot of a tag holds. -/
def readSlot (tag : Tag) (kind : Kind) (slot : List UInt8) : Option Scalar :=
  match tag with
  | .string => (Scalar.string (slotText slot)).convert? kind
  | .enum =>
      (Scalar.ofInt? .uint16 (ofLittleEndian (slot.take 2))).bind (·.convert? kind)
  | .char =>
      match kind with
      | .bool => some (.bool (ofLittleEndian (slot.take 1) ≠ 0))
      | .integer .char8 => Scalar.ofInt? .char8 (ofLittleEndian (slot.take 1))
      | _ => Scalar.ofInt? .int8 (ofTwosComplement (slot.take 1))
  | .short => Scalar.ofInt? .int16 (ofTwosComplement slot)
  | .long => Scalar.ofInt? .int32 (ofTwosComplement slot)
  | .float => some (.float32 (.ofBits (ofLittleEndian slot)))
  | .double => some (.float64 (.ofBits (ofLittleEndian slot)))

/-! ## Writing -/

/-- Bytes in a slot of a width: cut, or filled up with zero bytes. -/
def fill (width : Nat) (bytes : List UInt8) : List UInt8 :=
  bytes.take width ++ List.replicate (width - bytes.length) 0

/-- The bytes of a datum in a slot of a tag, before they are fitted to its
width.  There are none where the datum does not fit the tag. -/
def slotBytes (tag : Tag) (datum : Scalar) : Option (List UInt8) :=
  match tag, datum with
  | .string, datum => some (Text.encode datum.text)
  | .enum, datum =>
      match datum.convert? (.integer .uint16) with
      | some (.integer .uint16 number _) => some (twosComplement 2 number)
      | _ => none
  | .char, .bool truth => some [if truth then 1 else 0]
  | .char, .integer .char8 number _ => some (twosComplement 1 number)
  | .char, .integer .int8 number _ => some (twosComplement 1 number)
  | .short, .integer .int16 number _ => some (twosComplement 2 number)
  | .long, .integer .int32 number _ => some (twosComplement 4 number)
  | .float, .float32 number => some (littleEndian 4 number.toBits)
  | .double, .float64 number => some (littleEndian 8 number.toBits)
  | _, _ => none

end ProcessImage.Legacy
