import VoxelSchematic.Report
import VoxelSchematic.World.File

/-!
# Hosts

What a command needs from the place where it runs: opening files, creating files, and somebody
to tell things to.
-/

namespace VoxelSchematic

/-- What a running program has to say. -/
inductive Event where
  /-- A line of the answer. -/
  | line (text : String)
  /-- A record for the log. -/
  | record (record : LogRecord)
  /-- The reason for which the program stops; no threshold holds it back. -/
  | fatal (reason : String)
  /-- A line for somebody who has used the program wrongly. -/
  | complaint (text : String)
deriving Repr, DecidableEq

namespace Event

/-- What an event adds to the standard output at a given time, under a given threshold. -/
def output? (threshold : Severity) (time : String) : Event → Option String
  | .line text => some text
  | .record r =>
      if threshold.admits r.level then some (logLine r.level.severity time r.text) else none
  | .fatal reason => some (logLine .fatal time reason)
  | .complaint _ => none

/-- The lines that a printed text takes; a carriage return at the end of a line is part of the
line break. -/
def lines (text : String) : List String :=
  (text.splitOn "\n").map fun line =>
    if line.endsWith "\r" then String.ofList line.toList.dropLast else line

def complaint? : Event → Option String
  | .complaint text => some text
  | _ => none

end Event

/-- A place where commands run. -/
class Host (m : Type → Type) where
  /-- Opens a file and reads all of it. -/
  openFile : String → m Opened
  /-- Creates a file, or empties it, and writes to it; answers with the reason where that
  cannot be done. -/
  createFile : String → Array UInt8 → m (Except String Unit)
  emit : Event → m Unit

end VoxelSchematic
