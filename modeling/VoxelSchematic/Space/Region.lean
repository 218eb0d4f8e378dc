import VoxelSchematic.Space.BlockPos

/-!
# Regions

A region is a box of blocks along the axes. Its cells are counted layer by layer: along `x`
first, then along `z`, then along `y`.

* `Region.indexOf?` is the number of the cell at a position; positions outside have none.
* `Region.relativePosition` is the way from the minimum corner to the cell of a number.

Positions wrap at 32 bits, so a box may reach over the edge of the world.
-/

namespace VoxelSchematic

structure Region where
  min : BlockPos
  width : UInt32
  height : UInt32
  length : UInt32
deriving Repr, DecidableEq, Inhabited

namespace Region

def volume (r : Region) : Nat := r.width.toNat * r.height.toNat * r.length.toNat

def isEmpty (r : Region) : Bool := r.volume = 0

/-- The corner opposite to the minimum; an empty region has none worth the name. -/
def max (r : Region) : BlockPos :=
  r.min + ⟨r.width.toInt32 - 1, r.height.toInt32 - 1, r.length.toInt32 - 1⟩

/-- An offset along one axis, if it is neither negative nor beyond the size. -/
def offset? (relative : Int32) (size : UInt32) : Option Nat :=
  if 0 ≤ relative.toInt ∧ relative.toInt < size.toNat then some relative.toInt.toNat else none

def indexOf? (r : Region) (p : BlockPos) : Option Nat := do
  let relative := p - r.min
  let x ← offset? relative.x r.width
  let y ← offset? relative.y r.height
  let z ← offset? relative.z r.length
  return y * r.width.toNat * r.length.toNat + z * r.width.toNat + x

def contains (r : Region) (p : BlockPos) : Bool := (r.indexOf? p).isSome

/-- The way from the minimum corner to the cell of a number. A side of zero counts as one, so
that the layers of an empty region are numbered too. -/
def relativePosition (r : Region) (index : Nat) : BlockPos :=
  let width := Nat.max r.width.toNat 1
  let layer := width * Nat.max r.length.toNat 1
  ⟨.ofNat (index % width), .ofNat (index / layer), .ofNat (index % layer / width)⟩

def position (r : Region) (index : Nat) : BlockPos := r.min + r.relativePosition index

def sizeText (r : Region) : String := s!"{r.width.toNat}x{r.height.toNat}x{r.length.toNat}"

def text (r : Region) : String := s!"{r.sizeText} at {r.min.text}"

instance : ToString Region := ⟨text⟩

end Region

end VoxelSchematic
