import VoxelSchematic.Content.Clipboard
import VoxelSchematic.Schematic.Decoded

/-!
# Placement

Putting a decoded schematic into a store.

* `Placement` is a store with what it has refused so far. Only the first two refusals are
  reported; all are counted.
* `Decoded.place` offers every cell in order and then every entity.
* `TagFile.readInto` reads a schematic into any store, and `TagFile.readClipboard` into a
  clipboard that fits.
-/

namespace VoxelSchematic

/-- A store with what it has refused so far. -/
structure Placement (σ : Type) where
  store : σ
  failed : Nat := 0
  /-- The reports on refusals, in order. -/
  reports : List String := []

namespace Placement

variable {σ : Type} [BlockStore σ]

/-- What is reported of the refusal that follows `failed` others. -/
def refusalReport? (failed : Nat) (what : String) : Option String :=
  match failed with
  | 0 => some what
  | 1 => some (what ++ " (no more placement failures will be reported)")
  | _ => none

def refuse (store : σ) (failed : Nat) (reports : List String) (what : String) : Placement σ :=
  ⟨store, failed + 1, reports ++ (refusalReport? failed what).toList⟩

def cellRefusal (position : BlockPos) (fault : StoreError) : String :=
  s!"Failed to place block at {position.text}: {fault.message}"

def entityRefusal (typeId : String) (fault : StoreError) : String :=
  s!"Failed to create entity {typeId}: {fault.message}"

def offerCell (position : BlockPos) (cell : Cell) : Placement σ → Placement σ
  | ⟨store, failed, reports⟩ =>
      match BlockStore.setBlock store position cell with
      | (.ok (), store) => ⟨store, failed, reports⟩
      | (.error fault, store) => refuse store failed reports (cellRefusal position fault)

def offerEntity (entity : Entity) : Placement σ → Placement σ
  | ⟨store, failed, reports⟩ =>
      match BlockStore.addEntity store entity with
      | (.ok (), store) => ⟨store, failed, reports⟩
      | (.error fault, store) => refuse store failed reports (entityRefusal entity.typeId fault)

end Placement

namespace Decoded

open Placement Telling

variable {σ ε : Type} [BlockStore σ]

/-- Offers the cells from a number on, as many as are asked for. -/
def placeCells (d : Decoded) : Nat → Nat → Placement σ → Placement σ
  | _, 0, p => p
  | i, count + 1, p =>
      d.placeCells (i + 1) count (offerCell (d.region.position i) (d.cell i) p)

def placeEntities (d : Decoded) (p : Placement σ) : Placement σ :=
  d.entities.foldl (fun p entity => offerEntity entity p) p

def place (d : Decoded) (store : σ) : Telling ε (Placement σ) := do
  let p := d.placeCells 0 d.region.volume { store }
  p.reports.forM warn
  if d.strays > 0 then
    log .debug s!"Dropped {d.strays} tile entities positioned outside the schematic"
  let said := p.reports.length
  let p := d.placeEntities p
  (p.reports.drop said).forM warn
  if p.failed > 0 then log .debug s!"{p.failed} placements failed while reading schematic"
  return p

end Decoded

namespace TagFile

variable {σ : Type} [BlockStore σ]

/-- Reads a schematic into the store that `store` makes for its region and its origin. -/
def readInto (file : TagFile) (registry : Registry) (store : Region → BlockPos → σ) :
    Telling SchematicError (Placement σ) := do
  let d ← (Decoded.ofFile registry file).mapError .format
  d.place (store d.region d.origin)

/-- Reads a schematic into a clipboard of its region and its origin. -/
def readClipboard (file : TagFile) (registry : Registry) : Telling SchematicError Clipboard := do
  let p ← file.readInto registry Clipboard.withOrigin
  return p.store

end TagFile

end VoxelSchematic
