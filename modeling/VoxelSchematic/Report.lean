import VoxelSchematic.Text.Blank

/-!
# Diagnostics

Functions of this library do not print. What they have to say along the way is a list of
notices, in the order in which things were found.

* `Severity` grades a report; `Severity.ofText?` reads a grade from a configuration.
* `LogLevel` grades a log record; `Severity.level` and `LogLevel.severity` relate the two.
* `Notice` is either a report to whoever asked for the work, or a log record for whoever runs
  the program. `Notice.toLog` turns the first kind into the second.
* `Telling` is work that may fail and that gives notice along the way. What was said before a
  failure stays said.
-/

namespace VoxelSchematic

inductive LogLevel where
  | error
  | warn
  | info
  | debug
  | trace
deriving Repr, DecidableEq, Inhabited

inductive Severity where
  | debug
  | info
  | warning
  | error
  | fatal
deriving Repr, DecidableEq, Inhabited

namespace LogLevel

def name : LogLevel → String
  | .error => "ERROR"
  | .warn => "WARN"
  | .info => "INFO"
  | .debug => "DEBUG"
  | .trace => "TRACE"

/-- Higher ranks are more talkative. -/
def rank : LogLevel → Nat
  | .error => 1
  | .warn => 2
  | .info => 3
  | .debug => 4
  | .trace => 5

/-- The severity under which a record is printed. -/
def severity : LogLevel → Severity
  | .error => .error
  | .warn => .warning
  | .info => .info
  | .debug => .debug
  | .trace => .debug

end LogLevel

namespace Severity

def name : Severity → String
  | .debug => "DEBUG"
  | .info => "INFO"
  | .warning => "WARNING"
  | .error => "ERROR"
  | .fatal => "FATAL"

instance : ToString Severity := ⟨name⟩

/-- Higher ranks are graver. -/
def rank : Severity → Nat
  | .debug => 0
  | .info => 1
  | .warning => 2
  | .error => 3
  | .fatal => 4

/-- The level at which a report of this severity is logged; the log knows nothing graver than
an error. -/
def level : Severity → LogLevel
  | .debug => .debug
  | .info => .info
  | .warning => .warn
  | .error => .error
  | .fatal => .error

/-- Whether a log that is set to this severity prints a record of the given level. -/
def admits (threshold : Severity) (level : LogLevel) : Bool := level.rank ≤ threshold.level.rank

/-- The severity that a word names. Blanks around it and the case of ASCII letters do not
count. -/
def ofText? (text : String) : Option Severity :=
  match String.ofList ((Text.trim text.toList).map Char.toLower) with
  | "debug" | "trace" => some .debug
  | "info" => some .info
  | "warn" | "warning" => some .warning
  | "error" => some .error
  | "fatal" => some .fatal
  | _ => none

def unknownMessage (text : String) : String := "unknown log severity: " ++ text

/-- The threshold that a configuration asks for; without a readable one, it is `info`. -/
def threshold (configured : Option String) : Severity := (configured.bind ofText?).getD .info

end Severity

def logLine (severity : Severity) (time message : String) : String :=
  s!"[{severity.name}] {time} {message}"

structure LogRecord where
  level : LogLevel
  text : String
deriving Repr, DecidableEq

structure Report where
  severity : Severity
  text : String
deriving Repr, DecidableEq

def Report.toLog (r : Report) : LogRecord := ⟨r.severity.level, r.text⟩

/-- Something said along the way. -/
inductive Notice where
  | log (record : LogRecord)
  | report (report : Report)
deriving Repr, DecidableEq

namespace Notice

def logged (level : LogLevel) (text : String) : Notice := .log ⟨level, text⟩

def warning (text : String) : Notice := .report ⟨.warning, text⟩

def toLog : Notice → LogRecord
  | .log r => r
  | .report r => r.toLog

def log? : Notice → Option LogRecord
  | .log r => some r
  | .report _ => none

def report? : Notice → Option Report
  | .log _ => none
  | .report r => some r

end Notice

def reportsOf (notices : List Notice) : List Report := notices.filterMap Notice.report?

def logsOf (notices : List Notice) : List LogRecord := notices.filterMap Notice.log?

/-- Work that may fail and that gives notice along the way. -/
abbrev Telling (ε α : Type) := EStateM ε (Array Notice) α

namespace Telling

variable {ε α : Type}

def tell (notice : Notice) : Telling ε Unit := modify fun said => said.push notice

def log (level : LogLevel) (text : String) : Telling ε Unit := tell (.logged level text)

def warn (text : String) : Telling ε Unit := tell (.warning text)

/-- Work that gives no notice. -/
def ofExcept (result : Except ε α) : Telling ε α :=
  match result with
  | .ok value => pure value
  | .error fault => throw fault

/-- Work that has been done, with what was said. -/
def ofHeard (result : Except ε α) (notices : List Notice) : Telling ε α := do
  modify fun (said : Array Notice) => said ++ notices
  ofExcept result

/-- The same work with its failures seen from further up. -/
def mapError {ε' : Type} (f : ε → ε') (work : Telling ε α) : Telling ε' α := fun said =>
  match work said with
  | .ok value said => .ok value said
  | .error fault said => .error (f fault) said

def hear (work : Telling ε α) : Except ε α × List Notice :=
  match work #[] with
  | .ok value said => (.ok value, said.toList)
  | .error fault said => (.error fault, said.toList)

end Telling

end VoxelSchematic
