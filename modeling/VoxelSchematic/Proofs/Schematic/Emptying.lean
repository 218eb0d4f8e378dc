import VoxelSchematic.Proofs.Schematic.Accepted

/-!
# Trees that are taken away

A decoded schematic keeps its trees while its cells are placed, and says by their places how many of
them belong to no cell. They can as well be handed out: each cell takes the tree at its place away,
and what is left in the end belongs to no cell.

* `Decoded.emptyCells_eq`: no two cells are at one place, so each of them finds its tree, and the
  store is offered the same cells.
* `Decoded.size_eraseAll`: as many trees are left as there are strays.
* `TagFile.readInto_eq_emptying`: for every file and every store the same happens, and the same is
  said.
-/

namespace VoxelSchematic

namespace Decoded

open Placement Telling

variable {σ ε : Type} [BlockStore σ] {d : Decoded} {trees : Std.HashMap BlockPos Compound}
  {places : List BlockPos} {place : BlockPos}

/-! ## Taking away -/

/-- What is left of the trees when those at some places have been taken away. -/
def eraseAll (trees : Std.HashMap BlockPos Compound) (places : List BlockPos) :
    Std.HashMap BlockPos Compound :=
  places.foldl (fun trees place => trees.erase place) trees

theorem mem_eraseAll_iff : place ∈ eraseAll trees places ↔ place ∈ trees ∧ place ∉ places := by
  induction places generalizing trees with
  | nil => simp [eraseAll]
  | cons first rest ih =>
      have hstep : eraseAll trees (first :: rest) = eraseAll (trees.erase first) rest := rfl
      rw [hstep, ih, Std.HashMap.mem_erase, beq_eq_false_iff_ne, List.mem_cons, not_or,
        ne_comm, and_comm (a := place ≠ first), and_assoc]

/-- The cell of a number with the tree that is taken away for it, and what is left of the trees. -/
def takeCell (d : Decoded) (trees : Std.HashMap BlockPos Compound) (i : Nat) :
    Cell × Std.HashMap BlockPos Compound :=
  let place := d.region.relativePosition i
  (⟨d.blockId i, d.planes.dataValue i, trees[place]?⟩, trees.erase place)

/-- Offers the cells from a number on, as many as are asked for, and takes their trees away. -/
def emptyCells (d : Decoded) : Nat → Nat → Std.HashMap BlockPos Compound → Placement σ →
    Placement σ × Std.HashMap BlockPos Compound
  | _, 0, trees, p => (p, trees)
  | i, count + 1, trees, p =>
      let (cell, trees) := d.takeCell trees i
      d.emptyCells (i + 1) count trees (offerCell (d.region.position i) cell p)

/-- Puts a schematic into a store and hands its trees out. -/
def placeEmptying (d : Decoded) (store : σ) : Telling ε (Placement σ) := do
  let (p, left) := d.emptyCells 0 d.region.volume d.anchored { store }
  p.reports.forM warn
  if !left.isEmpty then
    log .debug s!"Dropped {left.size} tile entities positioned outside the schematic"
  let said := p.reports.length
  let p := d.placeEntities p
  (p.reports.drop said).forM warn
  if p.failed > 0 then log .debug s!"{p.failed} placements failed while reading schematic"
  return p

/-! ## The same cells -/

/-- Each cell finds the tree that it has from the start. -/
theorem emptyCells_eq (spanned : d.region.Spanned) (i count : Nat) (p : Placement σ)
    (hcount : i + count ≤ d.region.volume)
    (htrees : ∀ j, i ≤ j → j < d.region.volume →
      trees[d.region.relativePosition j]? = d.anchored[d.region.relativePosition j]?) :
    d.emptyCells i count trees p = (d.placeCells i count p,
      eraseAll trees ((List.range' i count).map d.region.relativePosition)) := by
  -- The trees of the cells from `i` on are still there. One step takes that of cell `i` away, and
  -- it is at the place of no other cell.
  induction count generalizing i trees p with
  | zero => rfl
  | succ count ih =>
      have hi : i < d.region.volume := by omega
      have hcell : (d.takeCell trees i).1 = d.cell i := by
        rw [takeCell, cell, htrees i (Nat.le_refl i) hi]
      have hleft : ∀ j, i + 1 ≤ j → j < d.region.volume →
          (trees.erase (d.region.relativePosition i))[d.region.relativePosition j]? =
            d.anchored[d.region.relativePosition j]? := by
        intro j hij hj
        have hne : d.region.relativePosition i ≠ d.region.relativePosition j := by
          intro hsame
          have hij' := Region.relativePosition_inj spanned hi hj hsame
          omega
        rw [Std.HashMap.getElem?_erase, if_neg (by simpa using hne)]
        exact htrees j (Nat.le_of_succ_le hij) hj
      calc
        d.emptyCells i (count + 1) trees p =
            d.emptyCells (i + 1) count (trees.erase (d.region.relativePosition i))
              (offerCell (d.region.position i) (d.takeCell trees i).1 p) := rfl
        _ = _ := by
            rw [hcell, ih (i + 1) _ (by omega) hleft]
            rfl

/-! ## What is left -/

/-- The trees that no cell takes away are those outside the region. -/
theorem size_eraseAll (spanned : d.region.Spanned) :
    (eraseAll d.anchored ((List.range' 0 d.region.volume).map d.region.relativePosition)).size =
      d.strays := by
  let places := (List.range' 0 d.region.volume).map d.region.relativePosition
  let left := eraseAll d.anchored places
  let outside (place : BlockPos) : Bool :=
    !({ d.region with min := .zero } : Region).contains place
  have hplaces (place : BlockPos) :
      place ∈ places ↔ ({ d.region with min := .zero } : Region).contains place = true := by
    rw [Region.contains_zero_iff spanned]
    simp [places, List.mem_range'_1]
  have hkeys : left.keys.Perm (d.anchored.keys.filter outside) := by
    refine (List.perm_ext_iff_of_nodup left.nodup_keys (d.anchored.nodup_keys.filter _)).2
      fun place => ?_
    rw [List.mem_filter, Std.HashMap.mem_keys, Std.HashMap.mem_keys, mem_eraseAll_iff, hplaces]
    simp [outside]
  calc
    left.size = left.keys.length := Std.HashMap.length_keys.symm
    _ = (d.anchored.keys.filter outside).length := hkeys.length_eq
    _ = d.strays := List.countP_eq_length_filter.symm

/-- Handing the trees out makes no difference to any store, nor to what is said. -/
theorem placeEmptying_eq (spanned : d.region.Spanned) (store : σ) :
    (d.placeEmptying store : Telling ε (Placement σ)) = d.place store := by
  have hcells := emptyCells_eq spanned 0 d.region.volume ({ store } : Placement σ)
    (Nat.le_of_eq (Nat.zero_add _)) fun _ _ _ => rfl
  unfold placeEmptying place
  rw [hcells]
  simp only [Std.HashMap.isEmpty_eq_size_eq_zero, size_eraseAll spanned]
  by_cases hstrays : d.strays = 0
  · simp [hstrays]
  · simp [hstrays, Nat.pos_iff_ne_zero]

end Decoded

open Telling in
/-- A reader may hand the trees out. -/
theorem TagFile.readInto_eq_emptying {σ : Type} [BlockStore σ] (file : TagFile) (r : Registry)
    (store : Region → BlockPos → σ) :
    file.readInto r store = (do
      let d ← (Decoded.ofFile r file).mapError SchematicError.format
      d.placeEmptying (store d.region d.origin)) := by
  funext said
  unfold readInto
  cases hread : (Decoded.ofFile r file).mapError SchematicError.format said with
  | error fault mid => rw [Outcome.bind_of_error hread, Outcome.bind_of_error hread]
  | ok d mid =>
      rcases Decoded.of_ofFile (mapError_eq_ok_iff.1 hread) with ⟨tree, records, -, hsays⟩
      rw [Outcome.bind_of_ok hread, Outcome.bind_of_ok hread,
        Decoded.placeEmptying_eq hsays.small.spanned]

end VoxelSchematic
