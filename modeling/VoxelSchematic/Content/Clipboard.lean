import VoxelSchematic.Content.Store

/-!
# Clipboards

A clipboard is a region with a cell for each of its positions, an origin, and the entities that
stand in it. As a store it takes every block inside its region and every entity.
-/

namespace VoxelSchematic

structure Clipboard where
  region : Region
  origin : BlockPos
  /-- The cells in the order in which the region counts them. -/
  cells : Array Cell
  entities : Array Entity := #[]
  size_cells : cells.size = region.volume

namespace Clipboard

def withOrigin (region : Region) (origin : BlockPos) : Clipboard where
  region := region
  origin := origin
  cells := Array.replicate region.volume .air
  size_cells := Array.size_replicate

/-- A region of air; its minimum corner is the origin. -/
def empty (region : Region) : Clipboard := withOrigin region region.min

instance : Inhabited Clipboard := ⟨empty default⟩

def setOrigin (c : Clipboard) (origin : BlockPos) : Clipboard := { c with origin := origin }

def get? (c : Clipboard) (p : BlockPos) : Option Cell := do
  let i ← c.region.indexOf? p
  c.cells[i]?

def modifyAt (c : Clipboard) (i : Nat) (f : Cell → Cell) : Clipboard :=
  { c with cells := c.cells.modify i f, size_cells := by simp [c.size_cells] }

/-- Applies `f` to the cell at a position; outside the region nothing happens. -/
def modify (c : Clipboard) (p : BlockPos) (f : Cell → Cell) : Clipboard :=
  match c.region.indexOf? p with
  | some i => c.modifyAt i f
  | none => c

/-- The cell at a position, and what the clipboard becomes when another cell takes its place. -/
def slot? (c : Clipboard) (p : BlockPos) : Option (Cell × (Cell → Clipboard)) := do
  let i ← c.region.indexOf? p
  let cell ← c.cells[i]?
  return (cell, fun other => c.modifyAt i fun _ => other)

def map (c : Clipboard) (f : Cell → Cell) : Clipboard :=
  { c with cells := c.cells.map f, size_cells := by simp [c.size_cells] }

def set (c : Clipboard) (p : BlockPos) (cell : Cell) : Except StoreError Clipboard :=
  match c.region.indexOf? p with
  | some i => .ok (c.modifyAt i fun _ => cell)
  | none => .error (.outOfBounds p)

def pushEntity (c : Clipboard) (e : Entity) : Clipboard := { c with entities := c.entities.push e }

/-- Each position with its cell, in the order in which the region counts them. -/
def positions (c : Clipboard) : List (BlockPos × Cell) :=
  c.cells.toList.zipIdx.map fun entry => (c.region.position entry.2, entry.1)

def tileEntityCount (c : Clipboard) : Nat := c.cells.countP fun cell => cell.tree.isSome

def same (a b : Clipboard) : Bool :=
  a.region == b.region && a.origin == b.origin && a.cells.size == b.cells.size
    && (a.cells.zip b.cells).all (fun pair => pair.1.same pair.2)
    && a.entities.size == b.entities.size
    && (a.entities.zip b.entities).all (fun pair => pair.1.same pair.2)

def setBlock (c : Clipboard) (p : BlockPos) (cell : Cell) : Except StoreError Unit × Clipboard :=
  match c.region.indexOf? p with
  | some i => (.ok (), c.modifyAt i fun _ => cell)
  | none => (.error (.outOfBounds p), c)

instance : BlockStore Clipboard where
  region := region
  setBlock := setBlock
  block? := get?
  addEntity c e := (.ok (), c.pushEntity e)

end Clipboard

end VoxelSchematic
