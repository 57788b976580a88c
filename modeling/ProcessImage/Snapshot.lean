import ProcessImage.Value

/-!
# Snapshots

What is known of a variable at one moment: its latest value, whether its
channel is connected, and what came with the latest updates: a time, a status
code and the severity of an alarm.
-/

namespace ProcessImage

/-- How serious an alarm is. -/
inductive Severity where
  | noAlarm
  | minor
  | major
  | invalid
deriving DecidableEq, Repr

namespace Severity

/-- The severity that a code of the network means.  Unknown codes are invalid. -/
def ofCode : Nat → Severity
  | 0 => noAlarm
  | 1 => minor
  | 2 => major
  | _ => invalid

/-- The code that means a severity on the network. -/
def code : Severity → Nat
  | noAlarm => 0
  | minor => 1
  | major => 2
  | invalid => 3

/-- Name of a severity. -/
def name : Severity → String
  | noAlarm => "NoAlarm"
  | minor => "Minor"
  | major => "Major"
  | invalid => "Invalid"

/-- The code of a severity means that severity. -/
@[simp]
theorem ofCode_code (severity : Severity) : ofCode severity.code = severity := by
  cases severity <;> rfl

end Severity

/-- A moment, in seconds and a fraction of a second since the epoch. -/
structure Timestamp where
  seconds : Nat
  nanoseconds : Fin 1000000000
deriving DecidableEq, Repr

/-- A moment from any numbers of seconds and nanoseconds; whole seconds are
carried over. -/
def Timestamp.of (seconds nanoseconds : Nat) : Timestamp where
  seconds := seconds + nanoseconds / 1000000000
  nanoseconds := ⟨nanoseconds % 1000000000, Nat.mod_lt _ (by decide)⟩

/-- What an update may carry beside a value. -/
structure Metadata where
  timestamp : Option Timestamp := none
  status : Option Nat := none
  severity : Option Severity := none
deriving DecidableEq, Repr

/-- What is known after further metadata: each item that they carry replaces
the earlier one, and each item that they lack is kept. -/
def Metadata.overlay (known new : Metadata) : Metadata where
  timestamp := new.timestamp <|> known.timestamp
  status := new.status <|> known.status
  severity := new.severity <|> known.severity

/-- What is known of a variable at one moment. -/
structure Snapshot where
  value : Value := .empty
  connected : Bool := false
  metadata : Metadata := {}
deriving Inhabited

end ProcessImage
