import VoxelSchematic.Command.Run
import VoxelSchematic.Gzip.Stored
import Std.Time

/-!
# The program

Running commands on the disk and the terminal.
-/

namespace VoxelSchematic.Terminal

/-- The variable that sets the threshold of the log. -/
def thresholdVariable : String := "LECTERN_LOG"

/-- A program that knows the threshold of its log. -/
abbrev Running := ReaderT Severity IO

/-- The local time, to the second, with the name of its zone. -/
def now : IO String := do
  let time ← Std.Time.DateTime.now
  return time.format "uuuu-MM-dd HH:mm:ss zzz"

def Opened.ofFault : IO.Error → Opened
  | .noFileOrDirectory name code details =>
      .missing (toString (IO.Error.noFileOrDirectory name code details))
  | fault => .refused (toString fault)

def readAll (handle : IO.FS.Handle) : IO Opened :=
  tryCatch (do return .bytes (← handle.readBinToEnd).data)
    fun fault => return .unreadable (toString fault)

def openFile (path : String) : IO Opened :=
  tryCatch (do readAll (← IO.FS.Handle.mk path .read)) fun fault => return Opened.ofFault fault

def createFile (path : String) (content : Array UInt8) : IO (Except String Unit) :=
  tryCatch (do IO.FS.writeBinFile path ⟨content⟩; return .ok ())
    fun fault => return .error (toString fault)

def emit (threshold : Severity) (event : Event) : IO Unit := do
  if let some text := event.output? threshold (← now) then IO.println text
  if let some text := event.complaint? then IO.eprintln text

instance : Host Running where
  openFile path := openFile path
  createFile path content := createFile path content
  emit event := do emit (← read) event

end VoxelSchematic.Terminal

open VoxelSchematic in
def main (arguments : List String) : IO UInt32 := do
  let threshold := Severity.threshold (← IO.getEnv Terminal.thresholdVariable)
  (Command.program arguments : Terminal.Running UInt32).run threshold
