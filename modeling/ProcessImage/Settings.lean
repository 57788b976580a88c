import ProcessImage.Fault
import ProcessImage.Legacy.Tag

/-!
# Settings

The settings bound how long writes and connections are waited for, and lay out
the slots of the legacy protocol.  `Settings.validate` refuses what no system
can work with.
-/

namespace ProcessImage

/-- How a system of variables works. -/
structure Settings where
  /-- How long a write is waited for, in milliseconds. -/
  writeTimeout : Nat := 5000
  /-- How long a connection is waited for, in milliseconds. -/
  connectTimeout : Nat := 5000
  /-- Number of bytes in a legacy text slot. -/
  stringSlotWidth : Nat := Legacy.defaultStringWidth
  /-- Number of bytes in a legacy choice slot. -/
  enumSlotWidth : Nat := Legacy.enumSlotWidth
deriving DecidableEq, Repr

namespace Settings

/-- The legacy slots that the settings lay out. -/
def layout (settings : Settings) : Legacy.Layout :=
  ⟨settings.stringSlotWidth⟩

/-- The first thing that is wrong with the settings, if anything is. -/
def validate (settings : Settings) : Except Fault Unit :=
  if settings.stringSlotWidth = 0 then .error .noStringSlot
  else if settings.enumSlotWidth ≠ Legacy.enumSlotWidth then
    .error (.wrongEnumSlot Legacy.enumSlotWidth settings.enumSlotWidth)
  else if settings.writeTimeout = 0 then .error .noWriteTimeout
  else .ok ()

/-- Settings that are not refused leave room for texts. -/
theorem stringWidth_pos {settings : Settings} (valid : settings.validate = .ok ()) :
    0 < settings.layout.stringWidth := by
  unfold validate at valid
  split at valid
  next => cases valid
  next positive => exact Nat.pos_of_ne_zero positive

end Settings

end ProcessImage
