import VoxelSchematic.Content.Clipboard
import VoxelSchematic.NibblePlane
import VoxelSchematic.Schematic.IdField
import VoxelSchematic.Tag.List
import VoxelSchematic.Wire.File

/-!
# Clipboards as schematics

* `Clipboard.toFile` writes a clipboard as a schematic, with the names that a registry has for
  the numbers in it.
* The planes for high bits are written only where some cell needs them. Block numbers keep
  twelve bits; the first that needs more is reported.
* The mapping sections name the numbers of the cells and those inside the trees of tile
  entities.
-/

namespace VoxelSchematic

open Schematic Telling

namespace Cell

/-- The block number that a schematic can hold. -/
def storedId (c : Cell) : UInt16 := c.id &&& maxBlockId

/-- The bits of the stored number from the ninth on. -/
def highId (c : Cell) : UInt8 := (c.storedId.toNat / 256).toUInt8

def highData (c : Cell) : UInt8 := (c.data.toNat / 256).toUInt8

end Cell

/-- The record of a tile entity: its tree, with a name that may be empty, and the way to its
cell from the minimum corner. -/
def tileEntityRecord (place : BlockPos) (tree : Compound) : Compound :=
  tree.insertMany [
    ("id", .string ((tree.getString? "id").getD "")),
    ("x", .int place.x),
    ("y", .int place.y),
    ("z", .int place.z)]

/-- The record of an entity: its tree, and then what identifies and places it. -/
def Entity.record (e : Entity) : Compound :=
  let own : Compound := (((e.tree.getD .empty).erase "id").erase "Pos").erase "Rotation"
  own.insertMany [
    ("id", .string e.typeId),
    ("Pos", .list (TagList.ofDoubles [e.position.x, e.position.y, e.position.z])),
    ("Rotation", .list (TagList.ofFloats [e.facing.yaw, e.facing.pitch]))]

def truncationReport (id : UInt16) : String :=
  s!"Block ID {id.toNat} does not fit a .schematic; IDs above {maxBlockId.toNat} are truncated"

namespace Clipboard

variable {ε : Type}

/-- The records of the tile entities, in the order of their cells. -/
def tileEntityRecords (c : Clipboard) : List Compound :=
  c.cells.toList.zipIdx.filterMap fun (cell, i) =>
    cell.tree.map (tileEntityRecord (c.region.relativePosition i))

/-- Records the names of the numbers in the cells from a number on. `truncated` tells whether a
number with too many bits has been reported. -/
def nameCells (c : Clipboard) (registry : Registry) :
    Bool → List (Cell × Nat) → RemapTable → Telling ε RemapTable
  | _, [], table => return table
  | truncated, (cell, i) :: rest, table => do
      let tooHigh := cell.id > maxBlockId
      if tooHigh && !truncated then warn (truncationReport cell.id)
      let (_, table) ← table.recordBlock registry cell.storedId
      let table ←
        match cell.tree with
        | some tree =>
            (tileEntityRecord (c.region.relativePosition i) tree).recordIds registry table
        | none => pure table
      c.nameCells registry (truncated || tooHigh) rest table

def names (c : Clipboard) (registry : Registry) : Telling ε RemapTable :=
  c.nameCells registry false c.cells.toList.zipIdx .empty

/-- A plane as a field, if some of its values are not zero. -/
def optionalPlane (key : String) (values : Array UInt8) (pack : Array UInt8 → Array UInt8) :
    List (String × Tag) :=
  if values.any (· != 0) then [(key, .byteArray (pack values))] else []

def sideTag (size : UInt32) : Tag := .short size.toUInt16.toInt16

/-- The fields of a schematic in the order in which they are written. -/
def fields (c : Clipboard) (table : RemapTable) : Compound :=
  let offset := c.region.min - c.origin
  let (blockNames, itemNames) := table.toSections
  .ofList (
    [(Field.width, sideTag c.region.width), (Field.length, sideTag c.region.length),
      (Field.height, sideTag c.region.height), (Field.materials, .string alpha)]
    ++ Field.origin.zip [.int c.region.min.x, .int c.region.min.y, .int c.region.min.z]
    ++ Field.offset.zip [.int offset.x, .int offset.y, .int offset.z]
    ++ [(Field.blocks, .byteArray (c.cells.map fun cell => cell.storedId.toUInt8)),
      (Field.data, .byteArray (c.cells.map fun cell => cell.data.toUInt8))]
    ++ optionalPlane Field.extraData (c.cells.map Cell.highData) id
    ++ optionalPlane Field.addBlocks (c.cells.map Cell.highId) NibblePlane.ofValues
    ++ [(Field.tileEntities, .list (TagList.ofCompounds c.tileEntityRecords)),
      (Field.entities, .list (TagList.ofCompounds (c.entities.toList.map Entity.record))),
      (Field.blockMapping, .compound blockNames), (Field.itemMapping, .compound itemNames)])

/-- The first side that is too long, with its name. -/
def longSide? (r : Region) : Option (String × Nat) :=
  let sides := [(Field.width, r.width), (Field.height, r.height), (Field.length, r.length)]
  (sides.map fun side => (side.1, side.2.toNat)).find? fun side => side.2 > maxSide

def toFile (c : Clipboard) (registry : Registry) : Telling SchematicError TagFile := do
  if let some (axis, size) := longSide? c.region then throw (.sideTooLong axis size)
  let table ← c.names registry
  return ⟨rootName, .compound (c.fields table)⟩

end Clipboard

end VoxelSchematic
