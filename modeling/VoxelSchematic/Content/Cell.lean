import VoxelSchematic.Tag.Equality
import VoxelSchematic.Space.BlockPos

/-!
# Cells and entities

What fills a region: one `Cell` for each block, and an `Entity` for each thing that stands
freely in it.
-/

namespace VoxelSchematic

def sameTree : Option Compound → Option Compound → Bool
  | none, none => true
  | some a, some b => a.same b
  | _, _ => false

/-- A block: its number, its data value, and a tree where it has more to tell. -/
structure Cell where
  id : UInt16 := 0
  data : UInt16 := 0
  tree : Option Compound := none
deriving Inhabited

namespace Cell

def air : Cell := {}

def tileEntityId? (c : Cell) : Option String := c.tree.bind fun tree => tree.getString? "id"

def isAir (c : Cell) : Bool := c.id == 0 && c.tree.isNone

def same (a b : Cell) : Bool := a.id == b.id && a.data == b.data && sameTree a.tree b.tree

end Cell

/-- Something that stands freely in a region. -/
structure Entity where
  typeId : String
  position : Point := {}
  facing : Facing := {}
  tree : Option Compound := none
deriving Inhabited

namespace Entity

/-- Attaches a tree; one without fields is as good as none. -/
def withTree (e : Entity) (tree : Compound) : Entity :=
  { e with tree := if tree.isEmpty then none else some tree }

def same (a b : Entity) : Bool :=
  a.typeId == b.typeId && a.position.same b.position && a.facing.same b.facing
    && sameTree a.tree b.tree

end Entity

end VoxelSchematic
