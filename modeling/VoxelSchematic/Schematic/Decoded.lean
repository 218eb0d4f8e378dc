import VoxelSchematic.Content.Cell
import VoxelSchematic.NibblePlane
import VoxelSchematic.Schematic.IdField
import VoxelSchematic.Space.Region
import VoxelSchematic.Tag.List
import VoxelSchematic.Wire.File
import Std.Data.HashMap

/-!
# Decoded schematics

What a schematic says, before anything is put into a store.

* `Decoded.ofFile` reads a tag file. It checks the name and the type of the root, then the
  presence of the blocks, then the materials, the three sides, the two planes that every
  schematic has, the mapping sections and the tile entities, in this order. All other fields may
  be missing or malformed, and then count as absent.
* `Decoded.cell` is the cell of a number, put together from the planes and the anchored trees.
-/

namespace VoxelSchematic

open Schematic

/-- The numbers of the cells, spread over several planes. -/
structure Planes where
  /-- The low bytes of the block numbers. -/
  blocks : Array UInt8
  /-- The low bytes of the data values. -/
  data : Array UInt8
  /-- The high bytes of the data values. -/
  extra : Option (Array UInt8) := none
  /-- Nibble planes with the bits from the ninth on of the block numbers. Of those that reach a
  cell, the last counts. -/
  adds : List (Array UInt8) := []

namespace Planes

/-- A number with the bits from the ninth on replaced. -/
def withHighBits (id : UInt16) (bits : UInt8) : UInt16 :=
  let raised : UInt16 := bits.toUInt16 <<< 8
  (id &&& 0x00FF) ||| raised

def blockId (p : Planes) (i : Nat) : UInt16 :=
  p.adds.foldl
    (fun id plane =>
      match NibblePlane.get? plane i with
      | some bits => withHighBits id bits
      | none => id)
    (p.blocks[i]?.getD 0).toUInt16

def dataValue (p : Planes) (i : Nat) : UInt16 :=
  let low := (p.data[i]?.getD 0).toUInt16
  match p.extra.bind fun plane => plane[i]? with
  | some high =>
      let raised : UInt16 := high.toUInt16 <<< 8
      low ||| raised
  | none => low

end Planes

structure Decoded where
  region : Region
  origin : BlockPos
  planes : Planes
  conversion : Conversion
  /-- The trees of tile entities, by their way from the minimum corner. -/
  anchored : Std.HashMap BlockPos Compound
  entities : List Entity

namespace Decoded

/-- The block number of a cell in the registry of the reader. -/
def blockId (d : Decoded) (i : Nat) : UInt16 :=
  if d.conversion.hasBlocks then d.conversion.block (d.planes.blockId i) else d.planes.blockId i

def cell (d : Decoded) (i : Nat) : Cell where
  id := d.blockId i
  data := d.planes.dataValue i
  tree := d.anchored[d.region.relativePosition i]?

/-- The number of tile entities whose positions lie outside the region. -/
def strays (d : Decoded) : Nat :=
  d.anchored.keys.countP fun place => !({ d.region with min := .zero } : Region).contains place

/-! ## Fields -/

def required {α : Type} (tree : Compound) (key : String) (expected : TagType)
    (read : Tag → Option α) : Except FormatError α :=
  (tree.require key expected read).mapError .ofField

/-- A side of the region, an unsigned number of sixteen bits. -/
def side (tree : Compound) (key : String) : Except FormatError UInt32 := do
  let size ← required tree key .short Tag.asShort?
  return size.toUInt16.toUInt32

/-- A plane that must be there, with one byte for each cell. -/
def plane (tree : Compound) (key : String) (volume : Nat) : Except FormatError (Array UInt8) := do
  let bytes ← required tree key .byteArray Tag.asByteArray?
  if bytes.size = volume then return bytes
  throw (.arrayLength key volume bytes.size)

/-- Three ints, if all of them are there. -/
def vector? (tree : Compound) : List String → Option BlockPos
  | [x, y, z] => do return ⟨← tree.getInt? x, ← tree.getInt? y, ← tree.getInt? z⟩
  | _ => none

/-- The minimum corner and the origin. Unless all six fields are ints, both are zero. -/
def anchorage (tree : Compound) : BlockPos × BlockPos :=
  match vector? tree Field.origin, vector? tree Field.offset with
  | some min, some offset => (min, min - offset)
  | _, _ => (.zero, .zero)

/-! ## Tile entities and entities -/

/-- The coordinate in a field; anything but an int counts as zero. -/
def coordinate (record : Compound) (key : String) : Int32 := (record.getInt? key).getD 0

/-- The position of a tile entity and its tree without the position. An empty name stands for
none. -/
def anchor (record : Compound) : BlockPos × Compound :=
  let tree : Compound := ((record.erase "x").erase "y").erase "z"
  (⟨coordinate record "x", coordinate record "y", coordinate record "z"⟩,
    if tree.getString? "id" == some "" then tree.erase "id" else tree)

/-- A tile entity with its numbers translated, if there are numbers to translate. -/
def translated (conversion : Conversion) (tree : Compound) : Compound :=
  if conversion.hasItems then tree.convertIds conversion else tree

/-- The tile entities by position; of two at one position, the later one counts. -/
def anchoredTrees (conversion : Conversion) (records : List Compound) :
    Std.HashMap BlockPos Compound :=
  records.foldl
    (fun trees record =>
      let (place, tree) := anchor record
      trees.insert place (translated conversion tree))
    ∅

/-- The entity of a record; a record without a name is none. -/
def entity? (record : Compound) : Option Entity :=
  let typeId := (record.getString? "id").getD ""
  if typeId.isEmpty then none
  else
    let position := ((record.getList? "Pos").map fun list =>
      (⟨list.floatAt 0, list.floatAt 1, list.floatAt 2⟩ : Point)).getD {}
    let facing := ((record.getList? "Rotation").map fun list =>
      (⟨(list.floatAt 0).narrow, (list.floatAt 1).narrow⟩ : Facing)).getD {}
    let entity : Entity := { typeId, position, facing }
    some (entity.withTree (((record.erase "id").erase "Pos").erase "Rotation"))

def entityList (tree : Compound) : List Entity :=
  match tree.getList? Field.entities with
  | some list => list.compounds.filterMap entity?
  | none => []

/-! ## Whole schematics -/

/-- The first of two fields that is a byte array. -/
def firstPlane? (tree : Compound) (first second : String) : Option (Array UInt8) :=
  (tree.getByteArray? first).or (tree.getByteArray? second)

def root (file : TagFile) : Except FormatError Compound := do
  if file.name != rootName then throw (.wrongRootName file.name)
  match file.root.asCompound? with
  | some tree => return tree
  | none => throw (.wrongTagType rootName .compound file.root.kind)

/-- Checks that the root has blocks, of the only materials that are understood. -/
def checkMaterials (tree : Compound) : Except FormatError Unit := do
  if !tree.contains Field.blocks then throw (.missingTag Field.blocks)
  let materials ← required tree Field.materials .string Tag.asString?
  if materials != alpha then throw (.unsupportedMaterials materials)

def extent (tree : Compound) : Except FormatError (Region × BlockPos) := do
  let width ← side tree Field.width
  let height ← side tree Field.height
  let length ← side tree Field.length
  let (min, origin) := anchorage tree
  return (⟨min, width, height, length⟩, origin)

def planesOf (tree : Compound) (volume : Nat) : Except FormatError Planes := do
  let blocks ← plane tree Field.blocks volume
  let data ← plane tree Field.data volume
  return {
    blocks
    data
    extra := firstPlane? tree Field.extraData Field.addData
    adds := [Field.addBlocks, Field.addBlocks2].filterMap tree.getByteArray? }

def ofFile (registry : Registry) (file : TagFile) : Telling FormatError Decoded := do
  let tree ← Telling.ofExcept (root file)
  Telling.ofExcept (checkMaterials tree)
  let (region, origin) ← Telling.ofExcept (extent tree)
  let planes ← Telling.ofExcept (planesOf tree region.volume)
  let table ← RemapTable.ofSections (tree.getCompound? Field.blockMapping)
    (tree.getCompound? Field.itemMapping)
  let conversion ← table.conversion registry
  let records ← Telling.ofExcept (required tree Field.tileEntities .list Tag.asList?)
  return {
    region
    origin
    planes
    conversion
    anchored := anchoredTrees conversion records.compounds
    entities := entityList tree }

end Decoded

end VoxelSchematic
