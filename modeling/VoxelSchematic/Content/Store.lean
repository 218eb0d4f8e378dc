import VoxelSchematic.Content.Cell
import VoxelSchematic.Space.Region

/-!
# Stores

A store takes blocks and entities. It may refuse any of them, and what it refuses may depend on
all that it has been given before.
-/

namespace VoxelSchematic

inductive StoreError where
  | outOfBounds (position : BlockPos)
  | rejected (position : BlockPos) (reason : String)
deriving Repr, DecidableEq

namespace StoreError

def message : StoreError → String
  | .outOfBounds position => s!"position {position.text} is outside the store"
  | .rejected position reason => s!"store rejected block at {position.text}: {reason}"

end StoreError

/-- States that blocks and entities can be put into. -/
class BlockStore (σ : Type) where
  /-- The region for which blocks are accepted. -/
  region : σ → Region
  /-- Puts a cell at a position. -/
  setBlock : σ → BlockPos → Cell → Except StoreError Unit × σ
  /-- The cell at a position. -/
  block? : σ → BlockPos → Option Cell
  /-- Adds an entity. -/
  addEntity : σ → Entity → Except StoreError Unit × σ

end VoxelSchematic
