import ProcessImage.Station

/-!
# Diagnostic texts

A diagnostic text spells out how an object is made up: records by the names and
the texts of their parts, alternatives by their name and what they hold.  It is
meant for the eye alone.
-/

namespace ProcessImage

namespace Diagnostic

/-- A record with named parts. -/
def record (name : String) (parts : List (String × String)) : String :=
  name ++ " \x7b " ++ String.intercalate ", " (parts.map fun (part, text) => part ++ ": " ++ text) ++
    " \x7d"

/-- An alternative that holds something. -/
def holding (name text : String) : String :=
  name ++ "(" ++ text ++ ")"

/-- Something that may be missing. -/
def optional {α : Type} (text : α → String) : Option α → String
  | none => "None"
  | some item => holding "Some" (text item)

/-- A truth value. -/
def truth (value : Bool) : String :=
  if value then "true" else "false"

end Diagnostic

/-- Name of a kind in diagnostic texts. -/
def Kind.title : Kind → String
  | .bool => "Bool"
  | .integer .char8 => "Char8"
  | .integer .int8 => "Int8"
  | .integer .uint8 => "UInt8"
  | .integer .int16 => "Int16"
  | .integer .uint16 => "UInt16"
  | .integer .int32 => "Int32"
  | .integer .uint32 => "UInt32"
  | .integer .int64 => "Int64"
  | .integer .uint64 => "UInt64"
  | .float32 => "Float32"
  | .float64 => "Float64"
  | .string => "String"

/-- Diagnostic text of a datum. -/
def Scalar.diagnostic (datum : Scalar) : String :=
  Diagnostic.holding datum.kind.title <|
    match datum with
    | .bool truth => Diagnostic.truth truth
    | .integer _ number _ => Text.writeInt number
    | .float32 number => number.diagnostic
    | .float64 number => number.diagnostic
    | .string text => Text.quote text

namespace DataType

mutual

/-- Diagnostic text of a type. -/
def diagnostic : DataType → String
  | .empty => "Empty"
  | .scalar kind => Diagnostic.holding "Scalar" kind.title
  | .struct name fields =>
      Diagnostic.holding "Struct" <| Diagnostic.record "StructType"
        [("name", Diagnostic.optional Text.quote name),
          ("fields", Text.bracket (fieldDiagnostics fields))]
  | .array name element length =>
      Diagnostic.holding "Array" <| Diagnostic.record "ArrayType"
        [("name", Diagnostic.optional Text.quote name), ("element", element.diagnostic),
          ("length", Diagnostic.optional toString length)]

/-- Diagnostic texts of fields. -/
def fieldDiagnostics : List (String × DataType) → List String
  | [] => []
  | (name, type) :: rest =>
      Diagnostic.record "FieldType" [("name", Text.quote name), ("ty", type.diagnostic)] ::
        fieldDiagnostics rest

end

end DataType

namespace Value

mutual

/-- Diagnostic text of a value. -/
def diagnostic : Value → String
  | .empty => "Empty"
  | .scalar datum => Diagnostic.holding "Scalar" datum.diagnostic
  | .struct name fields =>
      Diagnostic.holding "Struct" <| Diagnostic.record "StructValue"
        [("name", Diagnostic.optional Text.quote name),
          ("fields", Text.bracket (fieldDiagnostics fields))]
  | .array name element length elements =>
      Diagnostic.holding "Array" <| Diagnostic.record "ArrayValue"
        [("name", Diagnostic.optional Text.quote name), ("element_type", element.diagnostic),
          ("length", Diagnostic.optional toString length),
          ("elements", Text.bracket (elementDiagnostics elements))]

/-- Diagnostic texts of fields. -/
def fieldDiagnostics : List (String × Value) → List String
  | [] => []
  | (name, value) :: rest =>
      ("(" ++ Text.quote name ++ ", " ++ value.diagnostic ++ ")") :: fieldDiagnostics rest

/-- Diagnostic texts of elements. -/
def elementDiagnostics : List Value → List String
  | [] => []
  | value :: rest => value.diagnostic :: elementDiagnostics rest

end

end Value

/-- Diagnostic text of a moment. -/
def Timestamp.diagnostic (timestamp : Timestamp) : String :=
  Diagnostic.record "SystemTime"
    [("tv_sec", toString timestamp.seconds), ("tv_nsec", toString timestamp.nanoseconds.val)]

/-- Diagnostic text of a snapshot. -/
def Snapshot.diagnostic (snapshot : Snapshot) : String :=
  Diagnostic.record "ExtendedValue"
    [("value", snapshot.value.diagnostic), ("connected", Diagnostic.truth snapshot.connected),
      ("timestamp", Diagnostic.optional Timestamp.diagnostic snapshot.metadata.timestamp),
      ("status", Diagnostic.optional toString snapshot.metadata.status),
      ("severity", Diagnostic.optional Severity.name snapshot.metadata.severity)]

/-- Diagnostic text of the state of a cache. -/
def Cache.State.diagnostic (state : Cache.State) : String :=
  Diagnostic.record "CacheState"
    [("snapshot", state.snapshot.diagnostic), ("valid", Diagnostic.truth state.valid)]

/-- Diagnostic text of a cache. -/
def Cache.diagnostic (cache : Cache) : String :=
  Diagnostic.record "VariableCache"
    [("state", cache.state.diagnostic), ("callbacks", toString cache.callbacks.length)]

/-- Diagnostic text of a variable on a network of a protocol. -/
def Variable.diagnostic (protocol : Protocol) (pv : Variable) : String :=
  Diagnostic.record "ProcessVariable"
    [("name", Text.quote pv.name), ("type", pv.type.diagnostic), ("protocol", protocol.name),
      ("cache", pv.cache.diagnostic)]

/-- Diagnostic text of a network. -/
def Network.diagnostic (network : Network) : String :=
  Diagnostic.record "LoopbackProvider"
    [("protocol", network.protocol.name), ("channels", toString network.channels.length),
      ("mode", network.mode.name)]

end ProcessImage
