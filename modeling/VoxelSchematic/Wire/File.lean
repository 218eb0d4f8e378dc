import VoxelSchematic.Gzip.Member
import VoxelSchematic.Tag.Equality
import VoxelSchematic.Wire.Decode
import VoxelSchematic.Wire.Encode

/-!
# Tag files

A tag file is one named tag, plain or inside a gzip member.

* `TagFile.ofBytes`, `TagFile.ofGzip` and `TagFile.ofEither` read one; the last looks at the
  first two bytes to tell the two forms apart.
* `TagFile.toBytes` and `TagFile.toGzip` write one. A file that cannot be written in full still
  yields what precedes the fault.
-/

namespace VoxelSchematic

structure TagFile where
  name : String
  root : Tag
deriving Inhabited

namespace TagFile

def same (a b : TagFile) : Bool := a.name == b.name && a.root.same b.root

/-- The outcome of reading the named tag at the front of a byte sequence. -/
def outcome : EStateM.Result TagError (List UInt8) (String × Tag) → Except TagError TagFile
  | .ok (name, root) _ => .ok ⟨name, root⟩
  | .error fault _ => .error fault

/-- Reads a plain file. Bytes behind the tag are ignored. -/
def ofBytes (bytes : Array UInt8) : Except TagError TagFile := outcome (Wire.decode bytes.toList)

/-- A reader that asks for bytes behind the last one meets the ending of the data. -/
def meetEnding (ending : Gzip.Ending) : TagError → TagError
  | .truncated =>
      match ending with
      | .exhausted => .truncated
      | .corrupt => .io "corrupt gzip data"
  | fault => fault

def ofGzip (bytes : Array UInt8) : Except TagError TagFile :=
  let expanded := Gzip.expand bytes
  (ofBytes expanded.bytes).mapError (meetEnding expanded.ending)

/-- Whether a byte sequence starts as a gzip member does. -/
def isGzip (bytes : Array UInt8) : Bool := Gzip.magic.isPrefixOf bytes.toList

def ofEither (bytes : Array UInt8) : Except TagError TagFile :=
  if isGzip bytes then ofGzip bytes else ofBytes bytes

def toBytes (file : TagFile) : Wire.Image := Wire.image file.name file.root

/-- The compressed form; the member is complete also where the tag is not. -/
def toGzip [Gzip.Compressor] (file : TagFile) : Wire.Image :=
  let plain := file.toBytes
  ⟨Gzip.Compressor.compress plain.bytes, plain.fault⟩

end TagFile

end VoxelSchematic
