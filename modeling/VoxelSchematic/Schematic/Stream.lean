import VoxelSchematic.Schematic.Encoded
import VoxelSchematic.Schematic.Placement

/-!
# Schematics as bytes

Reading and writing schematics where nobody asks for reports: what would be reported goes to the
log.
-/

namespace VoxelSchematic

inductive Packing where
  | plain
  | gzip
deriving Repr, DecidableEq

namespace TagFile

def ofPacked : Packing → Array UInt8 → Except TagError TagFile
  | .plain => ofBytes
  | .gzip => ofGzip

def toPacked [Gzip.Compressor] : Packing → TagFile → Wire.Image
  | .plain => toBytes
  | .gzip => toGzip

end TagFile

namespace Telling

variable {ε α : Type}

/-- The same work with its reports sent to the log. -/
def logged (work : Telling ε α) : Telling ε α :=
  let (outcome, notices) := work.hear
  ofHeard outcome (notices.map fun notice => .log notice.toLog)

end Telling

namespace Clipboard

def ofStream (packing : Packing) (registry : Registry) (bytes : Array UInt8) :
    Telling SchematicError Clipboard := do
  let file ← .ofExcept ((TagFile.ofPacked packing bytes).mapError .ofTag)
  (file.readClipboard registry).logged

/-- The bytes of a clipboard as a schematic. A clipboard that is no schematic has none; one with
a tag that cannot be written has what precedes the fault. -/
def toStream [Gzip.Compressor] (packing : Packing) (registry : Registry) (c : Clipboard) :
    Telling SchematicError Wire.Image := do
  let file ← (c.toFile registry).logged
  return file.toPacked packing

end Clipboard

end VoxelSchematic
