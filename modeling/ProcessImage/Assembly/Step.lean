/-!
# Steps of an assembly

The steps by which a value is put together, one name for each.  The same names
tell what lies on top of the stack of an assembly.
-/

namespace ProcessImage.Assembly

/-- One step, without its contents. -/
inductive Step where
  | value
  | startStruct
  | endStruct
  | startField
  | endField
  | startArray
  | endArray
  | startElement
  | endElement
deriving DecidableEq, Repr

/-- Name of a step, as it stands in messages. -/
def Step.name : Step → String
  | value => "Value"
  | startStruct => "StartStruct"
  | endStruct => "EndStruct"
  | startField => "StartField"
  | endField => "EndField"
  | startArray => "StartArray"
  | endArray => "EndArray"
  | startElement => "StartArrayElement"
  | endElement => "EndArrayElement"

end ProcessImage.Assembly
