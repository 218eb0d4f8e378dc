import VoxelSchematic.Ieee.Binary

/-!
# Positions

* `BlockPos` is the position of a block. Sums and differences wrap at 32 bits.
* `Point` and `Facing` are the position and the direction of something that moves freely.
-/

namespace VoxelSchematic

open Ieee

structure BlockPos where
  x : Int32
  y : Int32
  z : Int32
deriving Repr, DecidableEq, Hashable, Inhabited

namespace BlockPos

def zero : BlockPos := ⟨0, 0, 0⟩

instance : Add BlockPos := ⟨fun p q => ⟨p.x + q.x, p.y + q.y, p.z + q.z⟩⟩

instance : Sub BlockPos := ⟨fun p q => ⟨p.x - q.x, p.y - q.y, p.z - q.z⟩⟩

def text (p : BlockPos) : String := s!"({p.x.toInt}, {p.y.toInt}, {p.z.toInt})"

instance : ToString BlockPos := ⟨text⟩

end BlockPos

/-- A position off the grid. -/
structure Point where
  x : Binary64 := .zero
  y : Binary64 := .zero
  z : Binary64 := .zero
deriving Repr, DecidableEq, Inhabited

/-- Equality of coordinates as numbers. -/
def Point.same (p q : Point) : Bool := p.x.same q.x && p.y.same q.y && p.z.same q.z

structure Facing where
  yaw : Binary32 := .zero
  pitch : Binary32 := .zero
deriving Repr, DecidableEq, Inhabited

def Facing.same (a b : Facing) : Bool := a.yaw.same b.yaw && a.pitch.same b.pitch

end VoxelSchematic
