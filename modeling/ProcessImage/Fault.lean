import ProcessImage.Assembly.Step
import ProcessImage.DataType
import ProcessImage.Text.Quoted
import ProcessImage.Wire.Tag

/-!
# Faults

A `Fault` is the cause for which an operation is refused.  Causes are grouped
in categories, and `Fault.message` words them.  Conditions of the network that
pass by themselves, such as a channel without connection or a write without
answer, are outcomes and no faults, unless an operation cannot start at all.
-/

namespace ProcessImage

/-- One side of a disagreement: what was wanted or what was there. -/
inductive Shape where
  | tag (tag : Wire.Tag)
  | kind (kind : Kind)
  | type (type : DataType)
  | elements (count : Nat)
  | scalarArrayTag
  | unionMember
  | name (name : String)
  | members (names : List String)
  | fields (names : List String)
  | emptyTree

/-- Wording of one side of a disagreement. -/
def Shape.text : Shape → String
  | .tag one => one.name
  | .kind one => one.name
  | .type one => one.text
  | .elements count => toString count ++ " elements"
  | .scalarArrayTag => "scalar array tag"
  | .unionMember => "union member"
  | .name one => one
  | .members names => "members " ++ Text.quoteAll names
  | .fields names => "fields " ++ Text.quoteAll names
  | .emptyTree => "empty wire value"

/-- The groups of causes. -/
inductive Fault.Category where
  | unknownType
  | typeMismatch
  | invalidSequence
  | unsupportedShape
  | provider
  | config
deriving DecidableEq, Repr

/-- The cause for which an operation is refused. -/
inductive Fault where
  /-- A type, at the top or in a field, has no form on the structured wire. -/
  | noWireForm (field : Option String) (type : DataType)
  /-- A type has no tag on the structured wire. -/
  | noWireTag (type : DataType)
  /-- A tag is not that of scalars. -/
  | noScalarKind (tag : Wire.Tag)
  /-- A type has no tag on the legacy wire. -/
  | noLegacyTag (type : DataType)
  /-- Two things that have to agree do not. -/
  | mismatch (expected found : Shape)
  /-- A step does not fit on top of what is under construction. -/
  | stepNotAllowed (step : Assembly.Step) (top : Option Assembly.Step)
  /-- A structure already has a field of the name. -/
  | duplicateField (name : String)
  /-- An assembly ends while its only part is still open. -/
  | unterminated (top : Assembly.Step)
  /-- An assembly ends while several parts are still open. -/
  | stillPending (count : Nat)
  /-- A tree has no node of the number. -/
  | noNode (id : Nat)
  /-- A schema holds a union, which no type describes. -/
  | unionSchema (tag : Wire.Tag)
  /-- A tree holds a union, which no value describes. -/
  | unionNode (tag : Wire.Tag) (id : Nat)
  /-- The content of a node disagrees with its schema. -/
  | inconsistentNode (tag : Wire.Tag) (id : Nat)
  /-- A channel without a name. -/
  | emptyChannelName
  /-- A channel without connection takes no writes. -/
  | notConnected (channel : String)
  /-- Text slots need room. -/
  | noStringSlot
  /-- Choice slots have one possible width. -/
  | wrongEnumSlot (expected found : Nat)
  /-- Writes need time. -/
  | noWriteTimeout

namespace Fault

/-- The group of a cause. -/
def category : Fault → Category
  | noWireForm .. | noWireTag _ | noScalarKind _ | noLegacyTag _ => .unknownType
  | mismatch .. => .typeMismatch
  | stepNotAllowed .. | duplicateField _ | unterminated _ | stillPending _ | noNode _ =>
      .invalidSequence
  | unionSchema _ | unionNode .. | inconsistentNode .. => .unsupportedShape
  | emptyChannelName | notConnected _ => .provider
  | noStringSlot | wrongEnumSlot .. | noWriteTimeout => .config

/-- The words with which the message of a group begins. -/
def Category.heading : Category → String
  | .unknownType => "Unknown type: "
  | .typeMismatch => "Type mismatch: "
  | .invalidSequence => "Invalid builder sequence: "
  | .unsupportedShape => "Unsupported shape: "
  | .provider => "Provider error: "
  | .config => "Invalid configuration: "

/-- Wording of a type inside a field for which there is no wire form. -/
def fieldDetail : DataType → String
  | .array _ element _ => "array of " ++ element.brief
  | type => type.brief

/-- What a cause says after the words for its group. -/
def detail : Fault → String
  | noWireForm none type => type.brief
  | noWireForm (some field) type => "field '" ++ field ++ "': " ++ fieldDetail type
  | noWireTag type => fieldDetail type
  | noScalarKind tag => tag.name
  | noLegacyTag type => type.text ++ " has no legacy tag"
  | mismatch expected found => "expected " ++ expected.text ++ ", found " ++ found.text
  | stepNotAllowed step top =>
      step.name ++ " not allowed on " ++
        (match top with | some top => top.name | none => "empty stack")
  | duplicateField name => "duplicate field '" ++ name ++ "'"
  | unterminated top => "unterminated " ++ top.name
  | stillPending count => toString count ++ " nodes still pending"
  | noNode id => "no wire node " ++ toString id
  | unionSchema tag => tag.name
  | unionNode tag id => tag.name ++ " at node " ++ toString id
  | inconsistentNode tag id => "inconsistent " ++ tag.name ++ " node " ++ toString id
  | emptyChannelName => "empty channel name"
  | notConnected channel => channel ++ " is not connected"
  | noStringSlot => "string_slot_width must be positive"
  | wrongEnumSlot expected found =>
      "enum_slot_width must be " ++ toString expected ++ " (got " ++ toString found ++ ")"
  | noWriteTimeout => "write_timeout_ms must be positive"

/-- The full wording of a cause. -/
def message (fault : Fault) : String :=
  fault.category.heading ++ fault.detail

end Fault

end ProcessImage
