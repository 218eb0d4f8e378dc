import VoxelSchematic.Content.Cell
import VoxelSchematic.NibblePlane
import VoxelSchematic.Report
import VoxelSchematic.World.Error
import Std.Data.HashMap

/-!
# Chunks

A chunk is a column of the world, 16 blocks wide and long and 128 high. Its blocks are counted
from the bottom up, then along `z`, then along `x`; their data values lie in a nibble plane.

* `Chunk.ofTree` reads a chunk.
* `Chunk.place?` is the number of the block at a position of the world. Above the chunk is air,
  whatever the other coordinates; everything else that is not inside is refused.
* `Chunk.block` is a whole cell. The first one asked for makes an index of the tile entities.
-/

namespace VoxelSchematic

/-- The trees of tile entities by their positions in the world. -/
abbrev TileEntityIndex := Std.HashMap BlockPos Compound

structure Chunk where
  /-- The tree that the chunk was read from. -/
  tree : Compound
  blocks : Array UInt8
  data : Array UInt8
  /-- The position in the grid of chunks. -/
  x : Int32
  z : Int32
  /-- The tile entities, once they have been asked for. -/
  index? : Option TileEntityIndex := none

namespace Chunk

/-- The width and the length. -/
def side : Nat := 16

def height : Nat := 128

def volume : Nat := side * side * height

/-- The position in the grid of chunks of the chunk with a given block. -/
def coordinates (p : BlockPos) : Int32 × Int32 :=
  (Int32.ofInt (p.x.toInt / side), Int32.ofInt (p.z.toInt / side))

def required {α : Type} (tree : Compound) (key : String) (expected : TagType)
    (read : Tag → Option α) : Except ChunkError α :=
  (tree.require key expected read).mapError .ofField

/-- Reads a chunk. The fields are checked first, and the lengths of the arrays after all of
them. -/
def ofTree (tree : Compound) : Except ChunkError Chunk := do
  let blocks ← required tree "Blocks" .byteArray Tag.asByteArray?
  let data ← required tree "Data" .byteArray Tag.asByteArray?
  let x ← required tree "xPos" .int Tag.asInt?
  let z ← required tree "zPos" .int Tag.asInt?
  if blocks.size ≠ volume then throw (.arrayLength "Blocks" volume blocks.size)
  if data.size ≠ volume / 2 then throw (.arrayLength "Data" (volume / 2) data.size)
  return { tree, blocks, data, x, z }

/-- The number of the block at a position; `none` stands for the air above. -/
def place? (c : Chunk) (p : BlockPos) : Except ChunkError (Option Nat) :=
  if (height : Int) ≤ p.y.toInt then .ok none
  else
    let x := p.x.toInt - c.x.toInt * side
    let z := p.z.toInt - c.z.toInt * side
    if 0 ≤ x ∧ x < side ∧ 0 ≤ z ∧ z < side ∧ 0 ≤ p.y.toInt then
      .ok (some (p.y.toInt.toNat + z.toNat * height + x.toNat * height * side))
    else .error (.outOfChunk p)

def blockId (c : Chunk) (p : BlockPos) : Except ChunkError UInt16 := do
  match ← c.place? p with
  | some i => return (c.blocks[i]?.getD 0).toUInt16
  | none => return 0

def blockData (c : Chunk) (p : BlockPos) : Except ChunkError UInt16 := do
  match ← c.place? p with
  | some i => return ((NibblePlane.get? c.data i).getD 0).toUInt16
  | none => return 0

/-- The position that a record states; anything but an int counts as zero. -/
def recordPosition (record : Compound) : BlockPos :=
  ⟨(record.getInt? "x").getD 0, (record.getInt? "y").getD 0, (record.getInt? "z").getD 0⟩

/-- Adds records to an index, each in place of what was at its position. -/
def indexRecords : List Tag → TileEntityIndex → Except ChunkError TileEntityIndex
  | [], index => .ok index
  | .compound record :: rest, index =>
      indexRecords rest (index.insert (recordPosition record) record)
  | tag :: _, _ => .error (.strayRecord tag.kind)

def indexOfTree (tree : Compound) : Except ChunkError TileEntityIndex := do
  let records ← required tree "TileEntities" .list Tag.asList?
  indexRecords records.items ∅

/-- The tile entities. They are looked up in the tree until that succeeds once. -/
def tileEntities (c : Chunk) : Telling ChunkError (TileEntityIndex × Chunk) :=
  match c.index? with
  | some index => return (index, c)
  | none => do
      let index ← .ofExcept (indexOfTree c.tree)
      Telling.log .debug s!"indexed {index.size} tile entities"
      return (index, { c with index? := some index })

def block (c : Chunk) (p : BlockPos) : Telling ChunkError (Cell × Chunk) := do
  let id ← .ofExcept (c.blockId p)
  let data ← .ofExcept (c.blockData p)
  let (index, c) ← c.tileEntities
  return ({ id, data, tree := index[p]? }, c)

end Chunk

end VoxelSchematic
