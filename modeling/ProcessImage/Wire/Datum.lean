import ProcessImage.Fault
import ProcessImage.Scalar

/-!
# Scalars on the structured wire

A `Datum` is a scalar as it travels: of any kind but a character, which goes as
the unsigned byte of the same number.  A `DatumArray` carries the tag of its
node; all of its items are data of the element of that tag.
-/

namespace ProcessImage.Wire

/-- A scalar on the wire. -/
structure Datum where
  scalar : Scalar
  distinct : scalar.kind ≠ .integer .char8
deriving DecidableEq

namespace Datum

/-- A scalar as it travels: a character as its byte, all else as it is. -/
def ofScalar : Scalar → Datum
  | .bool truth => ⟨.bool truth, by simp [Scalar.kind]⟩
  | .integer .char8 number member => ⟨.integer .uint8 number member, by simp [Scalar.kind]⟩
  | .integer .int8 number member => ⟨.integer .int8 number member, by simp [Scalar.kind]⟩
  | .integer .uint8 number member => ⟨.integer .uint8 number member, by simp [Scalar.kind]⟩
  | .integer .int16 number member => ⟨.integer .int16 number member, by simp [Scalar.kind]⟩
  | .integer .uint16 number member => ⟨.integer .uint16 number member, by simp [Scalar.kind]⟩
  | .integer .int32 number member => ⟨.integer .int32 number member, by simp [Scalar.kind]⟩
  | .integer .uint32 number member => ⟨.integer .uint32 number member, by simp [Scalar.kind]⟩
  | .integer .int64 number member => ⟨.integer .int64 number member, by simp [Scalar.kind]⟩
  | .integer .uint64 number member => ⟨.integer .uint64 number member, by simp [Scalar.kind]⟩
  | .float32 number => ⟨.float32 number, by simp [Scalar.kind]⟩
  | .float64 number => ⟨.float64 number, by simp [Scalar.kind]⟩
  | .string text => ⟨.string text, by simp [Scalar.kind]⟩

/-- The element that a datum is. -/
def element (datum : Datum) : Element :=
  .ofKind datum.scalar.kind

/-- The tag of a datum. -/
def tag (datum : Datum) : Tag :=
  .scalar datum.element

/-- A scalar travels as the element of its kind. -/
@[simp]
theorem element_ofScalar (scalar : Scalar) :
    (ofScalar scalar).element = .ofKind scalar.kind := by
  cases scalar with
  | integer kind number member => cases kind <;> rfl
  | _ => rfl

/-- A scalar that is no character arrives as it was. -/
theorem scalar_ofScalar {scalar : Scalar} (distinct : scalar.kind ≠ .integer .char8) :
    (ofScalar scalar).scalar = scalar := by
  cases scalar with
  | integer kind number member =>
      cases kind with
      | char8 => exact absurd rfl distinct
      | _ => rfl
  | _ => rfl

/-- The datum of an element that stands for nothing said. -/
def zeroOf (element : Element) : Datum :=
  ⟨.zeroOf element.kind, by simpa using element.kind_ne_char8⟩

end Datum

/-- Data under the tag of an array of scalars. -/
structure DatumArray where
  tag : Tag
  items : List Datum
deriving DecidableEq

namespace DatumArray

/-- The array without items. -/
def empty (tag : Tag) : Except Fault DatumArray :=
  if tag.isScalarArray then .ok ⟨tag, []⟩
  else .error (.mismatch .scalarArrayTag (.tag tag))

/-- The array of the given items, when every one of them is the element of the
tag. -/
def ofItems (tag : Tag) (items : List Datum) : Except Fault DatumArray :=
  match tag.arrayElement? with
  | none => .error (.mismatch .scalarArrayTag (.tag tag))
  | some element =>
      match items.find? (fun item => item.element ≠ element) with
      | some item => .error (.mismatch (.tag (.scalar element)) (.tag item.tag))
      | none => .ok ⟨tag, items⟩

end DatumArray

end ProcessImage.Wire
