import ProcessImage.Settings
import ProcessImage.Text.Utf8
import ProcessImage.Toml.Document

/-!
# Settings from documents

Settings are read from a TOML document.  What it does not set keeps its default
value, and keys that mean nothing here are passed over.  The table of the
legacy protocol may also be given as an array of its values in order.
-/

namespace ProcessImage

/-- Why there are no settings. -/
inductive Settings.LoadError where
  /-- There is no text to read. -/
  | unreadable
  /-- The text is no document, or a value in it has the wrong type. -/
  | malformed
  /-- The settings are refused. -/
  | refused (fault : Fault)

namespace Settings

/-- A natural number, or a default where there is no value. -/
def natural (otherwise : Nat) : Option Toml.Value → Except LoadError Nat
  | none => .ok otherwise
  | some (.integer number) => if 0 ≤ number then .ok number.toNat else .error .malformed
  | some _ => .error .malformed

/-- The settings of the legacy protocol.  A time in their place sets nothing. -/
def withLegacy (settings : Settings) : Option Toml.Value → Except LoadError Settings
  | none | some (.datetime _) => .ok settings
  | some (.table _ entries) => do
      let stringSlotWidth ← natural settings.stringSlotWidth (entries.lookup "string_slot_width")
      let enumSlotWidth ← natural settings.enumSlotWidth (entries.lookup "enum_slot_width")
      return { settings with stringSlotWidth, enumSlotWidth }
  | some (.array items) => do
      let stringSlotWidth ← natural settings.stringSlotWidth items[0]?
      let enumSlotWidth ← natural settings.enumSlotWidth items[1]?
      return { settings with stringSlotWidth, enumSlotWidth }
  | some _ => .error .malformed

/-- The settings that a table makes, before they are looked over. -/
def ofEntries (entries : Toml.Entries) : Except LoadError Settings := do
  let default : Settings := {}
  let writeTimeout ← natural default.writeTimeout (entries.lookup "write_timeout_ms")
  let connectTimeout ← natural default.connectTimeout (entries.lookup "connect_timeout_ms")
  withLegacy { writeTimeout, connectTimeout } (entries.lookup "legacy")

/-- The settings that a document makes. -/
def ofText (text : String) : Except LoadError Settings := do
  match Toml.readDocument text.toList with
  | none => throw .malformed
  | some entries =>
      let settings ← ofEntries entries
      match settings.validate with
      | .ok () => return settings
      | .error fault => throw (.refused fault)

/-- The settings in a file, from its bytes if it exists. -/
def ofFile : Option (List UInt8) → Except LoadError Settings
  | none => .error .unreadable
  | some bytes =>
      let text := Text.decode bytes
      if Text.encode text = bytes then ofText text else .error .unreadable

end Settings

end ProcessImage
