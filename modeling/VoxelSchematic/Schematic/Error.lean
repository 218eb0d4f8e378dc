import VoxelSchematic.Tag.Error
import VoxelSchematic.Tag.Required

/-!
# Faults of schematics

* `FormatError` says what is missing or malformed in a schematic that is read.
* `SchematicError` adds what else can stop reading or writing one.
-/

namespace VoxelSchematic

inductive FormatError where
  | wrongRootName (name : String)
  | missingTag (key : String)
  | wrongTagType (key : String) (expected found : TagType)
  | unsupportedMaterials (materials : String)
  | arrayLength (key : String) (expected found : Nat)
  /-- The tags themselves cannot be read. -/
  | stream (fault : TagError)
deriving Repr, DecidableEq

namespace FormatError

def message : FormatError → String
  | .wrongRootName name =>
      s!"root tag is named {Text.quoted name}, expected " ++ Text.quoted "Schematic"
  | .missingTag key => s!"schematic file is missing a {Text.quoted key} tag"
  | .wrongTagType key expected found => wrongTypeMessage key expected found
  | .unsupportedMaterials materials =>
      s!"schematic file is not an Alpha schematic (Materials = {Text.quoted materials})"
  | .arrayLength key expected found =>
      s!"{Text.quoted key} holds {found} bytes, expected {expected}"
  | .stream fault => s!"malformed tag stream: {fault.message}"

def ofField : FieldFault → FormatError
  | .missing key => .missingTag key
  | .wrongType key expected found => .wrongTagType key expected found

end FormatError

inductive SchematicError where
  | format (fault : FormatError)
  /-- A side of the region is too long to be written. -/
  | sideTooLong (axis : String) (size : Nat)
  /-- The medium failed. -/
  | io (reason : String)
deriving Repr, DecidableEq

namespace SchematicError

def message : SchematicError → String
  | .format fault => s!"invalid schematic: {fault.message}"
  | .sideTooLong axis size =>
      s!"invalid argument: {axis} of region too large for a .schematic: {size}"
  | .io reason => s!"IO error: {reason}"

def ofTag : TagError → SchematicError
  | .io reason => .io reason
  | fault => .format (.stream fault)

end SchematicError

end VoxelSchematic
