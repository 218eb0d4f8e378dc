import VoxelSchematic.Proofs.Schematic.Records
import VoxelSchematic.Proofs.Space
import VoxelSchematic.Proofs.Telling
import VoxelSchematic.Schematic.Placement

/-!
# Trees and cells in their places

* `getElem?_anchoredTrees`: the tile entities of a clipboard are found again at their cells.
* `yields_place`: a clipboard that fits a decoded schematic takes all of it, so that it comes to
  hold every cell and every entity of the schematic, in order.
-/

namespace VoxelSchematic

open Telling

/-! ## Anchored trees -/

namespace Decoded

theorem anchoredTrees_eq_ofList (conversion : Conversion) (records : List Compound) :
    anchoredTrees conversion records =
      Std.HashMap.ofList (records.map fun record =>
        ((anchor record).1, translated conversion (anchor record).2)) := by
  have hfold : ∀ trees : Std.HashMap BlockPos Compound,
      records.foldl (fun trees record =>
          trees.insert (anchor record).1 (translated conversion (anchor record).2)) trees =
        trees.insertMany (records.map fun record =>
          ((anchor record).1, translated conversion (anchor record).2)) := by
    induction records with
    | nil => exact fun trees => Std.HashMap.insertMany_nil.symm
    | cons record rest ih =>
        intro trees
        rw [List.foldl_cons, List.map_cons, Std.HashMap.insertMany_cons]
        exact ih _
  exact (hfold ∅).trans Std.HashMap.ofList_eq_insertMany_empty.symm

/-- Of the records at one place, the last counts. -/
theorem getElem?_foldl_insert_anchor (g : Compound → Compound) (records : List Compound)
    (place : BlockPos) :
    (records.foldl (fun trees record => trees.insert (anchor record).1 (g (anchor record).2))
        (∅ : Std.HashMap BlockPos Compound))[place]? =
      (records.reverse.find? fun record => (anchor record).1 == place).map fun record =>
        g (anchor record).2 :=
  BlockPos.getElem?_foldl_insert (fun record => (anchor record).1)
    (fun record => g (anchor record).2) records place

theorem getElem?_anchoredTrees_eq (conversion : Conversion) (records : List Compound)
    (place : BlockPos) :
    (anchoredTrees conversion records)[place]? =
      (records.reverse.find? fun record => (anchor record).1 == place).map fun record =>
        translated conversion (anchor record).2 :=
  getElem?_foldl_insert_anchor (translated conversion) records place

end Decoded

namespace Clipboard

variable {c : Clipboard} {i : Nat}

/-- The trees of a clipboard as they come out of its records. -/
def bareTrees (c : Clipboard) (conversion : Conversion) : List (BlockPos × Compound) :=
  c.cells.toList.zipIdx.filterMap fun (cell, i) =>
    cell.tree.map fun tree =>
      (c.region.relativePosition i, Decoded.translated conversion (Compound.bare tree))

theorem map_anchor_tileEntityRecords (c : Clipboard) (conversion : Conversion) :
    (c.tileEntityRecords.map fun record =>
        ((Decoded.anchor record).1, Decoded.translated conversion (Decoded.anchor record).2)) =
      c.bareTrees conversion := by
  simp [tileEntityRecords, bareTrees, List.map_filterMap, Option.map_map, Function.comp_def,
    anchor_tileEntityRecord]

theorem mem_bareTrees_iff {conversion : Conversion} {place : BlockPos} {tree : Compound} :
    (place, tree) ∈ c.bareTrees conversion ↔
      ∃ i own, ∃ hi : i < c.cells.size, c.cells[i].tree = some own ∧
        c.region.relativePosition i = place ∧
          Decoded.translated conversion (Compound.bare own) = tree := by
  rw [bareTrees, List.mem_filterMap]
  constructor
  -- An entry stems from a cell, and its number is the one that the cell has in the region.
  · intro h
    rcases h with ⟨⟨cell, i⟩, hcell, hmade⟩
    have hget := List.mk_mem_zipIdx_iff_getElem?.1 hcell
    rw [Array.getElem?_toList] at hget
    rcases Array.getElem?_eq_some_iff.1 hget with ⟨hi, rfl⟩
    rcases Option.map_eq_some_iff.1 hmade with ⟨own, hown, hpair⟩
    cases hpair
    exact ⟨i, own, hi, hown, rfl, rfl⟩
  · intro h
    rcases h with ⟨i, own, hi, hown, rfl, rfl⟩
    refine ⟨(c.cells[i], i), ?_, ?_⟩
    · rw [List.mk_mem_zipIdx_iff_getElem?, Array.getElem?_toList]
      exact Array.getElem?_eq_getElem hi
    · simp [hown]

/-- No two trees are at one place. -/
theorem pairwise_bareTrees (small : c.region.Small) (conversion : Conversion) :
    (c.bareTrees conversion).Pairwise fun a b => (a.1 == b.1) = false := by
  have hnumbers : c.cells.toList.zipIdx.Pairwise fun a b => a.2 ≠ b.2 := by
    rw [← List.pairwise_map, List.zipIdx_map_snd]
    exact List.nodup_range'
  rw [bareTrees, List.pairwise_filterMap]
  -- Different cells have different numbers, and different numbers lie at different places.
  refine List.Pairwise.imp_of_mem ?_ hnumbers
  intro a b ha hb hne first hfirst second hsecond
  rcases Option.map_eq_some_iff.1 hfirst with ⟨own, -, rfl⟩
  rcases Option.map_eq_some_iff.1 hsecond with ⟨other, -, rfl⟩
  have hlt : ∀ entry ∈ c.cells.toList.zipIdx, entry.2 < c.region.volume := by
    intro entry hentry
    have hbound := List.snd_lt_of_mem_zipIdx hentry
    rw [← c.size_cells]
    simpa using hbound
  rw [beq_eq_false_iff_ne]
  exact fun hsame => hne (Region.relativePosition_inj small.spanned (hlt a ha) (hlt b hb) hsame)

/-- At each cell stands the tree that it had. -/
theorem getElem?_anchoredTrees (small : c.region.Small) (conversion : Conversion)
    (hi : i < c.cells.size) :
    (Decoded.anchoredTrees conversion c.tileEntityRecords)[c.region.relativePosition i]? =
      c.cells[i].tree.map fun tree => Decoded.translated conversion (Compound.bare tree) := by
  rw [Decoded.anchoredTrees_eq_ofList, map_anchor_tileEntityRecords]
  cases htree : c.cells[i].tree with
  | some own =>
      exact Std.HashMap.getElem?_ofList_of_mem (beq_self_eq_true _)
        (pairwise_bareTrees small conversion) (mem_bareTrees_iff.2 ⟨i, own, hi, htree, rfl, rfl⟩)
  | none =>
      -- A tree at this place would be that of another cell, but no other cell is at this place.
      refine Std.HashMap.getElem?_ofList_of_contains_eq_false ?_
      rw [List.contains_eq_mem, decide_eq_false_iff_not, List.mem_map]
      intro hentry
      rcases hentry with ⟨⟨place, tree⟩, hmem, hplace⟩
      rcases mem_bareTrees_iff.1 hmem with ⟨j, own, hj, hown, hat, -⟩
      have hsame : j = i := by
        refine Region.relativePosition_inj small.spanned ?_ ?_ (hat.trans hplace)
        · rw [← c.size_cells]
          exact hj
        · rw [← c.size_cells]
          exact hi
      subst hsame
      rw [htree] at hown
      cases hown

/-- Every tree of a clipboard lies in its region. -/
theorem contains_of_mem_anchoredTrees (small : c.region.Small) {conversion : Conversion}
    {place : BlockPos} (h : place ∈ Decoded.anchoredTrees conversion c.tileEntityRecords) :
    ({ c.region with min := .zero } : Region).contains place = true := by
  rw [Decoded.anchoredTrees_eq_ofList, map_anchor_tileEntityRecords, Std.HashMap.mem_ofList,
    List.contains_iff_mem, List.mem_map] at h
  rcases h with ⟨⟨place, tree⟩, hmem, rfl⟩
  rcases mem_bareTrees_iff.1 hmem with ⟨i, own, hi, -, rfl, -⟩
  refine Region.contains_relativePosition small.spanned ?_
  rw [← c.size_cells]
  exact hi

end Clipboard

/-! ## Placement -/

namespace Decoded

variable {ε : Type} {d : Decoded}

/-- A decoded schematic as a clipboard. -/
def toClipboard (d : Decoded) : Clipboard where
  region := d.region
  origin := d.origin
  cells := Array.ofFn fun (i : Fin d.region.volume) => d.cell i
  entities := d.entities.toArray
  size_cells := Array.size_ofFn

/-- A clipboard over the region of the schematic takes a cell of it. -/
theorem offerCell_eq {i : Nat} {store : Clipboard} {failed : Nat} {reports : List String}
    (small : d.region.Small) (hregion : store.region = d.region) (hi : i < d.region.volume) :
    Placement.offerCell (d.region.position i) (d.cell i) ⟨store, failed, reports⟩ =
      ⟨store.modifyAt i fun _ => d.cell i, failed, reports⟩ := by
  have hset : BlockStore.setBlock store (d.region.position i) (d.cell i) =
      (.ok (), store.modifyAt i fun _ => d.cell i) := by
    change Clipboard.setBlock store (d.region.position i) (d.cell i) = _
    rw [Clipboard.setBlock, hregion, Region.indexOf?_position small.spanned hi]
  rw [Placement.offerCell, hset]

/-- Offering some cells changes just these. -/
theorem placeCells_eq (i count : Nat) (store : Clipboard) (failed : Nat) (reports : List String)
    (small : d.region.Small) (hregion : store.region = d.region)
    (hcount : i + count ≤ d.region.volume) :
    ∃ store', d.placeCells i count ⟨store, failed, reports⟩ = ⟨store', failed, reports⟩ ∧
      store'.region = store.region ∧ store'.origin = store.origin ∧
      store'.entities = store.entities ∧
      ∀ j, j < d.region.volume → store'.cells[j]? =
        if i ≤ j ∧ j < i + count then some (d.cell j) else store.cells[j]? := by
  -- The cells before `i` are settled and those from `i` on are still what they were. One step fills
  -- cell `i`, and the induction fills the ones behind it.
  induction count generalizing i store with
  | zero =>
      refine ⟨store, rfl, rfl, rfl, rfl, fun j _ => ?_⟩
      rw [if_neg (by omega)]
  | succ count ih =>
      have hi : i < d.region.volume := by omega
      have hsize : i < store.cells.size := by
        rw [store.size_cells, hregion]
        exact hi
      rcases ih (i + 1) (store.modifyAt i fun _ => d.cell i) hregion (by omega) with
        ⟨store', hplaced, hregion', horigin, hentities, hcells⟩
      refine ⟨store', ?_, hregion', horigin, hentities, fun j hj => ?_⟩
      · rw [placeCells, offerCell_eq small hregion hi]
        exact hplaced
      · have hmodified : (store.modifyAt i fun _ => d.cell i).cells[j]? =
            if i = j then some (d.cell i) else store.cells[j]? := by
          rw [Clipboard.modifyAt, Array.getElem?_modify]
          by_cases hsame : i = j
          · subst hsame
            simp [hsize]
          · rw [if_neg hsame, if_neg hsame]
        rw [hcells j hj, hmodified]
        -- Cell `i` is filled by the step itself and not touched again.
        by_cases hsame : i = j
        · subst hsame
          rw [if_neg (by omega), if_pos rfl, if_pos (by omega)]
        · rw [if_neg hsame]
          by_cases hlater : i + 1 ≤ j ∧ j < i + 1 + count
          · rw [if_pos hlater, if_pos (by omega)]
          · rw [if_neg hlater, if_neg (by omega)]

theorem placeEntities_eq (store : Clipboard) (failed : Nat) (reports : List String) :
    d.placeEntities ⟨store, failed, reports⟩ =
      ⟨{ store with entities := store.entities ++ d.entities.toArray }, failed, reports⟩ := by
  have hfold : ∀ (entities : List Entity) (store : Clipboard),
      entities.foldl (fun p entity => Placement.offerEntity entity p) ⟨store, failed, reports⟩ =
        (⟨{ store with entities := store.entities ++ entities.toArray }, failed, reports⟩ :
          Placement Clipboard) := by
    intro entities
    induction entities with
    | nil => simp
    | cons entity rest ih =>
        intro store
        have hoffer : Placement.offerEntity entity ⟨store, failed, reports⟩ =
            ⟨store.pushEntity entity, failed, reports⟩ := rfl
        rw [List.foldl_cons, hoffer, ih]
        simp [Clipboard.pushEntity]
  exact hfold d.entities store

/-- A clipboard whose cells are those of the schematic is the schematic, once it has the
entities. -/
theorem eq_toClipboard {store : Clipboard} (hregion : store.region = d.region)
    (horigin : store.origin = d.origin) (hentities : store.entities = d.entities.toArray)
    (hcells : ∀ j, j < d.region.volume → store.cells[j]? = some (d.cell j)) :
    store = d.toClipboard := by
  have hsame : store.cells = d.toClipboard.cells := by
    refine Array.ext_getElem? fun j => ?_
    by_cases hj : j < d.region.volume
    · rw [hcells j hj, toClipboard, Array.getElem?_ofFn, dif_pos hj]
    · have hsize : store.cells.size ≤ j := by
        rw [store.size_cells, hregion]
        exact Nat.not_lt.1 hj
      rw [Array.getElem?_eq_none hsize, toClipboard, Array.getElem?_ofFn, dif_neg hj]
  rcases store with ⟨region, origin, cells, entities, size_cells⟩
  subst hregion horigin hentities hsame
  rfl

/-- A clipboard over the region of the schematic takes all of it; strays are only mentioned in the
log. -/
theorem place_eq (small : d.region.Small) :
    (d.place (Clipboard.withOrigin d.region d.origin) : Telling ε (Placement Clipboard)) = do
      if d.strays > 0 then
        log .debug s!"Dropped {d.strays} tile entities positioned outside the schematic"
      return ⟨d.toClipboard, 0, []⟩ := by
  rcases placeCells_eq 0 d.region.volume (Clipboard.withOrigin d.region d.origin) 0 [] small rfl
      (Nat.le_of_eq (Nat.zero_add _)) with ⟨store, hplaced, hregion, horigin, hentities, hcells⟩
  have hfilled : ({ store with entities := store.entities ++ d.entities.toArray } : Clipboard) =
      d.toClipboard := by
    refine eq_toClipboard hregion horigin ?_ fun j hj => ?_
    · rw [hentities]
      exact Array.empty_append
    · exact (hcells j hj).trans (if_pos ⟨Nat.zero_le j, by rwa [Nat.zero_add]⟩)
  have hplace : d.placeEntities ⟨store, 0, []⟩ = ⟨d.toClipboard, 0, []⟩ := by
    rw [placeEntities_eq, hfilled]
  unfold place
  simp only [hplaced, hplace]
  -- Nothing was refused, so there is nothing to report.
  simp

theorem yields_place (small : d.region.Small) :
    Yields (d.place (Clipboard.withOrigin d.region d.origin) : Telling ε (Placement Clipboard))
      ⟨d.toClipboard, 0, []⟩ := by
  rw [place_eq small]
  by_cases hstrays : d.strays > 0
  · rw [if_pos hstrays]
    exact (yields_log _ _).bind (yields_pure _)
  · rw [if_neg hstrays]
    exact yields_pure _

theorem silently_place (small : d.region.Small) (hstrays : d.strays = 0) :
    Silently (d.place (Clipboard.withOrigin d.region d.origin) : Telling ε (Placement Clipboard))
      ⟨d.toClipboard, 0, []⟩ := by
  rw [place_eq small, if_neg (by rw [hstrays]; exact Nat.lt_irrefl 0)]
  exact silently_pure _

end Decoded

end VoxelSchematic
