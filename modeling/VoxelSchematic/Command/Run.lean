import VoxelSchematic.Command.Basic
import VoxelSchematic.Command.Host
import VoxelSchematic.Registry.Document
import VoxelSchematic.Schematic.Stream

/-!
# Running commands

* `Command.run` runs a command on any host. Reports on the way go to the log.
* `Command.program` is the whole program: it reads the arguments, runs the command, says why it
  has failed, and answers with an exit code.

A command looks for its registry first. Remapping creates its output only when there is
something to write to it.
-/

namespace VoxelSchematic

namespace Command

open Schematic

variable {m : Type → Type} [Monad m] [Host m]

/-- What a command does on a host. -/
abbrev Session (m : Type → Type) (α : Type) := ExceptT CommandError m α

def emit (event : Event) : Session m Unit := ExceptT.lift (Host.emit event)

def printLine (text : String) : Session m Unit := emit (.line text)

/-- Does work inside a session, with its notices logged. -/
def doing {ε α : Type} (fault : ε → CommandError) (work : Telling ε α) : Session m α := do
  let (outcome, notices) := work.hear
  notices.forM fun notice => emit (.record notice.toLog)
  match outcome with
  | .ok value => return value
  | .error e => throw (fault e)

def loadRegistry (path : String) : Session m Registry := do
  match ← ExceptT.lift (Host.openFile path) with
  | .missing reason | .refused reason => throw (.registry (.io reason))
  | .unreadable reason => throw (.registry (.json reason))
  | .bytes content => doing .registry (.ofExcept (Registry.ofDocument content.toList))

def openSchematic (path : String) : Session m TagFile := do
  match ← ExceptT.lift (Host.openFile path) with
  | .missing reason | .refused reason => throw (.io reason)
  | .unreadable reason => throw (.schematic (.io reason))
  | .bytes content =>
      doing .schematic (.ofExcept ((TagFile.ofEither content).mapError .ofTag))

/-- A number in a column of five characters. -/
def column (n : Nat) : String :=
  let digits := toString n
  String.ofList (List.replicate (5 - digits.length) ' ') ++ digits

/-- The lines that show one mapping section; an empty one is not shown. -/
def mappingLines (section_ : String) (table : IdTable) : List String :=
  if table.isEmpty then []
  else (section_ ++ ":") :: table.pairs.map fun (name, id) => s!"  {column id.toNat} {name}"

def clipboardLines (c : Clipboard) : List String :=
  [s!"size: {c.region.sizeText}",
    s!"minimum: {c.region.min.text}",
    s!"origin: {c.origin.text}",
    s!"blocks: {c.cells.countP fun cell => !cell.isAir} of {c.region.volume}",
    s!"tile entities: {c.tileEntityCount}",
    s!"entities: {c.entities.size}"]

def storedNames (file : TagFile) : Telling FormatError RemapTable :=
  RemapTable.ofSections
    (file.root.asCompound?.bind fun root => root.getCompound? Field.blockMapping)
    (file.root.asCompound?.bind fun root => root.getCompound? Field.itemMapping)

def runInspect (path : String) (registryPath : Option String) : Session m Unit := do
  let registry ←
    match registryPath with
    | some path => loadRegistry path
    | none => pure .empty
  let file ← openSchematic path
  let clipboard ← doing .schematic (file.readClipboard registry)
  (clipboardLines clipboard).forM printLine
  let table ← doing (fun fault => .schematic (.format fault)) (storedNames file)
  (mappingLines Field.blockMapping table.blocks).forM printLine
  (mappingLines Field.itemMapping table.items).forM printLine

variable [Gzip.Compressor]

def runRemap (input output registryPath : String) : Session m Unit := do
  let registry ← loadRegistry registryPath
  let file ← openSchematic input
  let clipboard ← doing .schematic (file.readClipboard registry)
  let written ← doing .schematic (clipboard.toFile registry)
  let image := written.toGzip
  match ← ExceptT.lift (Host.createFile output image.bytes) with
  | .error reason => throw (.io reason)
  | .ok () =>
      match image.fault with
      | some fault => throw (.schematic (.ofTag fault))
      | none =>
          emit (.record ⟨.info, s!"wrote {clipboard.region.volume} cells to {output}"⟩)

def runChunk (world : String) (position : BlockPos) : Session m Unit := do
  let (x, z) := Chunk.coordinates position
  let opened ← ExceptT.lift (Host.openFile (World.chunkPath world x z))
  let chunk ← doing .chunk (World.chunk world x z opened)
  let (cell, _) ← doing .chunk (chunk.block position)
  printLine s!"{position.text} {cell.id.toNat}:{cell.data.toNat}"
  if let some id := cell.tileEntityId? then printLine s!"tile entity: {id}"

def run : Command → Session m Unit
  | .inspect schematic registry => runInspect schematic registry
  | .remap input output registry => runRemap input output registry
  | .chunk world position => runChunk world position

/-- Says why a program stops, and answers with its exit code. -/
def conclude : Except CommandError Unit → m UInt32
  | .ok () => return 0
  | .error (.usage fault) => do
      Host.emit (.complaint fault.message)
      Host.emit (.complaint usage)
      return 1
  | .error fault => do
      Host.emit (.fatal fault.message)
      return 1

def program (arguments : List String) : m UInt32 := do
  let session : Session m Unit := do
    match parse arguments with
    | .ok command => command.run
    | .error fault => throw (.usage fault)
  conclude (← session.run)

end Command

end VoxelSchematic
