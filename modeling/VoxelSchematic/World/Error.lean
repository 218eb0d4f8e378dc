import VoxelSchematic.Space.BlockPos
import VoxelSchematic.Tag.Error
import VoxelSchematic.Tag.Required

/-!
# Faults of worlds

What can be wrong with a chunk, or with looking one up.
-/

namespace VoxelSchematic

inductive ChunkError where
  | arrayLength (key : String) (expected found : Nat)
  /-- A tile entity is something else than a compound. -/
  | strayRecord (found : TagType)
  | missingTag (key : String)
  | wrongTagType (key : String) (expected found : TagType)
  | outOfChunk (position : BlockPos)
  | missingChunk (x z : Int32)
  /-- The medium failed. -/
  | io (reason : String)
  /-- The tags themselves cannot be read. -/
  | stream (fault : TagError)
deriving Repr, DecidableEq

namespace ChunkError

def message : ChunkError → String
  | .arrayLength key expected found =>
      s!"invalid chunk: {key} array expected to be {expected} bytes; found {found}"
  | .strayRecord found =>
      s!"invalid chunk: compound expected in TileEntities, found {found.name}"
  | .missingTag key => s!"chunk is missing a {Text.quoted key} tag"
  | .wrongTagType key expected found => wrongTypeMessage key expected found
  | .outOfChunk position => s!"chunk does not contain position {position.text}"
  | .missingChunk x z => s!"no chunk stored at ({x.toInt}, {z.toInt})"
  | .io reason => s!"IO error: {reason}"
  | .stream fault => s!"malformed tag stream: {fault.message}"

def ofField : FieldFault → ChunkError
  | .missing key => .missingTag key
  | .wrongType key expected found => .wrongTagType key expected found

def ofTag : TagError → ChunkError
  | .io reason => .io reason
  | fault => .stream fault

end ChunkError

end VoxelSchematic
