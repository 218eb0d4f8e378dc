import VoxelSchematic.Content.Clipboard
import VoxelSchematic.Proofs.Space.Indexing

/-!
# Clipboards as maps on their regions

A clipboard has one cell for each position of its region and none elsewhere, whatever has been done
to it.

* `isSome_get?` and `get?_modifyAt`: there is a cell exactly at the positions inside, and changing the
  cell at one position leaves those at the others.
* `map_fst_positions` and `get?_of_mem_positions`: the list of all positions with their cells says the
  same.
* `Operation` is all that can be done to a clipboard, one cell or all cells at a time. No operation
  changes the region, and entities are only ever added behind those that are there.
* `total` and `run_total`: before and after any operations, the clipboard is a total map.
-/

namespace VoxelSchematic.Clipboard

variable {c c' : Clipboard} {p q : BlockPos} {i : Nat} {cell : Cell} {fault : StoreError}

/-! ## Cells by their positions -/

theorem lt_size_of_indexOf? (hp : c.region.indexOf? p = some i) : i < c.cells.size := by
  rw [c.size_cells]
  exact (Region.of_indexOf? hp).1

theorem get?_of_indexOf? (hp : c.region.indexOf? p = some i) : c.get? p = c.cells[i]? := by
  rw [get?, hp]
  rfl

theorem isSome_get? (c : Clipboard) (p : BlockPos) : (c.get? p).isSome = c.region.contains p := by
  unfold Region.contains
  cases hp : c.region.indexOf? p with
  | none =>
      rw [get?, hp]
      rfl
  | some i =>
      rw [get?_of_indexOf? hp, Array.getElem?_eq_getElem (lt_size_of_indexOf? hp)]
      rfl

/-- Changing the cell at one position leaves those at the others. -/
theorem get?_modifyAt (hp : c.region.indexOf? p = some i) (f : Cell → Cell) (q : BlockPos) :
    (c.modifyAt i f).get? q = if p = q then (c.get? p).map f else c.get? q := by
  by_cases hsame : p = q
  · subst hsame
    rw [if_pos rfl, get?_of_indexOf? hp, get?_of_indexOf? (c := c.modifyAt i f) hp, modifyAt,
      Array.getElem?_modify, if_pos rfl]
  · rw [if_neg hsame]
    cases hq : c.region.indexOf? q with
    | none =>
        simp only [get?, modifyAt, hq]
        rfl
    | some j =>
        have hne : i ≠ j := fun heq => hsame (Region.indexOf?_inj hp (heq ▸ hq))
        rw [get?_of_indexOf? hq, get?_of_indexOf? (c := c.modifyAt i f) hq, modifyAt,
          Array.getElem?_modify, if_neg hne]

theorem get?_putAt (hp : c.region.indexOf? p = some i) (cell : Cell) (q : BlockPos) :
    (c.modifyAt i fun _ => cell).get? q = if p = q then some cell else c.get? q := by
  have hheld : (c.get? p).map (fun _ => cell) = some cell := by
    rw [get?_of_indexOf? hp, Array.getElem?_eq_getElem (lt_size_of_indexOf? hp), Option.map_some]
  rw [get?_modifyAt hp, hheld]

/-- A clipboard of air has air wherever it has a cell. -/
theorem get?_withOrigin {region : Region} {origin : BlockPos} (inside : region.contains q = true) :
    (withOrigin region origin).get? q = some .air := by
  rcases Option.isSome_iff_exists.1 inside with ⟨i, hi⟩
  have hlt := (Region.of_indexOf? hi).1
  have hregion : (withOrigin region origin).region.indexOf? q = some i := hi
  rw [get?, hregion]
  simp [withOrigin, hlt]

/-! ## Slots -/

/-- The slot of a position holds the cell there. -/
theorem map_fst_slot? (c : Clipboard) (p : BlockPos) : (c.slot? p).map Prod.fst = c.get? p := by
  unfold slot? get?
  cases hp : c.region.indexOf? p with
  | none => rfl
  | some i =>
      have hi := lt_size_of_indexOf? hp
      simp only [Option.bind_eq_bind, Option.bind_some, Array.getElem?_eq_getElem hi,
        Option.pure_def, Option.map_some]

/-- A cell is changed by putting the changed cell into its slot. -/
theorem modify_eq_slot (c : Clipboard) (p : BlockPos) (f : Cell → Cell) :
    c.modify p f = match c.slot? p with
      | some (cell, put) => put (f cell)
      | none => c := by
  unfold modify slot?
  cases hp : c.region.indexOf? p with
  | none => rfl
  | some i =>
      have hi := lt_size_of_indexOf? hp
      have hcells : c.cells.modify i f = c.cells.modify i fun _ => f c.cells[i] := by
        ext j hj hj'
        · simp
        · rw [Array.getElem_modify, Array.getElem_modify]
          split
          · next hsame => simp only [hsame]
          · rfl
      simp only [Option.bind_eq_bind, Option.bind_some, Array.getElem?_eq_getElem hi,
        Option.pure_def, modifyAt, hcells]

theorem get?_modify (c : Clipboard) (f : Cell → Cell) (p q : BlockPos) :
    (c.modify p f).get? q = if p = q then (c.get? p).map f else c.get? q := by
  unfold modify
  cases hp : c.region.indexOf? p with
  | some i => exact get?_modifyAt hp f q
  | none =>
      have hnone : c.get? p = none := by
        rw [get?, hp]
        rfl
      by_cases hsame : p = q
      · rw [if_pos hsame, ← hsame, hnone]
        rfl
      · rw [if_neg hsame]

/-! ## One cell put -/

theorem set_of_inside (inside : c.region.contains p = true) (cell : Cell) :
    ∃ c', c.set p cell = .ok c' ∧ c'.region = c.region ∧ c'.origin = c.origin ∧
      c'.entities = c.entities ∧ ∀ q, c'.get? q = if p = q then some cell else c.get? q := by
  rcases Option.isSome_iff_exists.1 inside with ⟨i, hp⟩
  refine ⟨c.modifyAt i fun _ => cell, ?_, rfl, rfl, rfl, get?_putAt hp cell⟩
  rw [set, hp]

theorem set_eq_error_iff :
    c.set p cell = .error fault ↔ c.region.contains p = false ∧ fault = .outOfBounds p := by
  unfold set Region.contains
  cases hp : c.region.indexOf? p with
  | some i => simp
  | none => simp [eq_comm]

/-- As a store, a clipboard is set in the same way, and is itself when it refuses. -/
theorem setBlock_eq_set (c : Clipboard) (p : BlockPos) (cell : Cell) :
    BlockStore.setBlock c p cell = match c.set p cell with
      | .ok c' => (.ok (), c')
      | .error fault => (.error fault, c) := by
  change c.setBlock p cell = _
  unfold setBlock set
  cases hp : c.region.indexOf? p with
  | some i => rfl
  | none => rfl

/-! ## All positions with their cells -/

theorem map_fst_positions (c : Clipboard) : c.positions.map Prod.fst = c.region.positions := by
  have hplaces : c.cells.toList.zipIdx.map Prod.snd = List.range c.region.volume := by
    rw [List.zipIdx_map_snd, List.range_eq_range', Array.length_toList, c.size_cells]
  rw [positions, List.map_map, Region.positions, ← hplaces, List.map_map]
  rfl

theorem get?_of_mem_positions (spanned : c.region.Spanned) {entry : BlockPos × Cell}
    (h : entry ∈ c.positions) : c.get? entry.1 = some entry.2 := by
  rcases List.mem_map.1 h with ⟨⟨cell, i⟩, hplace, rfl⟩
  have hcell : c.cells.toList[i]? = some cell := List.mk_mem_zipIdx_iff_getElem?.1 hplace
  rw [Array.getElem?_toList] at hcell
  have hlt : i < c.region.volume := by
    rw [← c.size_cells]
    exact (Array.getElem?_eq_some_iff.1 hcell).1
  rw [get?_of_indexOf? (Region.indexOf?_position spanned hlt), hcell]

/-! ## Operations -/

/-- Applies `f` to the cells all at once. -/
def editCells (c : Clipboard) (f : (n : Nat) → Vector Cell n → Vector Cell n) : Clipboard :=
  { c with
    cells := (f c.region.volume ⟨c.cells, c.size_cells⟩).toArray
    size_cells := (f c.region.volume ⟨c.cells, c.size_cells⟩).size_toArray }

/-- What can be done to a clipboard. -/
inductive Operation where
  | set (position : BlockPos) (cell : Cell)
  /-- As a store sets a cell. -/
  | setBlock (position : BlockPos) (cell : Cell)
  /-- Changes the cell in the slot of a position, if there is one. -/
  | edit (position : BlockPos) (f : Cell → Cell)
  /-- Changes the cells as a sequence that keeps its length. -/
  | editCells (f : (n : Nat) → Vector Cell n → Vector Cell n)
  | pushEntity (entity : Entity)
  /-- As a store adds an entity. -/
  | addEntity (entity : Entity)
  | setOrigin (origin : BlockPos)

namespace Operation

/-- What the clipboard is after the operation, also where that is refused. -/
def apply (c : Clipboard) : Operation → Clipboard
  | .set p cell =>
      match c.set p cell with
      | .ok c' => c'
      | .error _ => c
  | .setBlock p cell => (BlockStore.setBlock c p cell).2
  | .edit p f => c.modify p f
  | .editCells f => c.editCells f
  | .pushEntity e => c.pushEntity e
  | .addEntity e => (BlockStore.addEntity c e).2
  | .setOrigin origin => c.setOrigin origin

/-- The entity that the operation adds. -/
def entity? : Operation → Option Entity
  | .pushEntity e => some e
  | .addEntity e => some e
  | _ => none

/-- The origin that the operation sets. -/
def origin? : Operation → Option BlockPos
  | .setOrigin origin => some origin
  | _ => none

/-- What an operation does apart from the cells. -/
structure Frame (c c' : Clipboard) (op : Operation) : Prop where
  region : c'.region = c.region
  origin : c'.origin = op.origin?.getD c.origin
  entities : c'.entities.toList = c.entities.toList ++ op.entity?.toList

/-- An operation on cells has nothing else to change. -/
theorem Frame.of_cells {op : Operation} (region : c'.region = c.region) (origin : c'.origin = c.origin)
    (entities : c'.entities = c.entities) (horigin : op.origin? = none) (hentity : op.entity? = none) :
    op.Frame c c' where
  region := region
  origin := by rw [horigin, origin]; rfl
  entities := by rw [hentity, entities]; exact (List.append_nil _).symm

theorem frame_set (c : Clipboard) (p : BlockPos) (cell : Cell) :
    (Operation.set p cell).Frame c (apply c (.set p cell)) := by
  cases hin : c.region.contains p with
  | true =>
      rcases set_of_inside hin cell with ⟨c', hset, hregion, horigin, hentities, -⟩
      rw [apply, hset]
      exact .of_cells hregion horigin hentities rfl rfl
  | false =>
      rw [apply, set_eq_error_iff.2 ⟨hin, rfl⟩]
      exact .of_cells rfl rfl rfl rfl rfl

theorem apply_setBlock (c : Clipboard) (p : BlockPos) (cell : Cell) :
    apply c (.setBlock p cell) = apply c (.set p cell) := by
  rw [apply, apply, setBlock_eq_set]
  cases c.set p cell with
  | ok c' => rfl
  | error fault => rfl

theorem frame_edit (c : Clipboard) (p : BlockPos) (f : Cell → Cell) :
    (Operation.edit p f).Frame c (apply c (.edit p f)) := by
  rw [apply, modify]
  cases c.region.indexOf? p with
  | some i => exact .of_cells rfl rfl rfl rfl rfl
  | none => exact .of_cells rfl rfl rfl rfl rfl

theorem frame_apply (c : Clipboard) (op : Operation) : op.Frame c (op.apply c) := by
  cases op with
  | set p cell => exact frame_set c p cell
  | setBlock p cell =>
      rcases frame_set c p cell with ⟨hregion, horigin, hentities⟩
      rw [← apply_setBlock] at hregion horigin hentities
      exact ⟨hregion, horigin, hentities⟩
  | edit p f => exact frame_edit c p f
  | editCells f => exact .of_cells rfl rfl rfl rfl rfl
  | pushEntity e => exact ⟨rfl, rfl, Array.toList_push⟩
  | addEntity e => exact ⟨rfl, rfl, Array.toList_push⟩
  | setOrigin origin => exact ⟨rfl, rfl, (List.append_nil _).symm⟩

end Operation

/-- The clipboard after operations, one after the other. -/
def run (c : Clipboard) (ops : List Operation) : Clipboard := ops.foldl Operation.apply c

theorem region_run (c : Clipboard) (ops : List Operation) : (c.run ops).region = c.region := by
  induction ops generalizing c with
  | nil => rfl
  | cons op rest ih => exact (ih (op.apply c)).trans (op.frame_apply c).region

/-- Entities stand in the order in which they were added. -/
theorem entities_run (c : Clipboard) (ops : List Operation) :
    (c.run ops).entities.toList = c.entities.toList ++ ops.filterMap Operation.entity? := by
  induction ops generalizing c with
  | nil => exact (List.append_nil _).symm
  | cons op rest ih =>
      have hrest : (c.run (op :: rest)).entities.toList = _ := ih (op.apply c)
      rw [hrest, (op.frame_apply c).entities, List.append_assoc]
      cases hop : op.entity? with
      | none => rw [List.filterMap_cons_none hop]; rfl
      | some e => rw [List.filterMap_cons_some hop]; rfl

/-- The last origin that was set stays. -/
theorem origin_run (c : Clipboard) (ops : List Operation) :
    (c.run ops).origin = ((ops.filterMap Operation.origin?).getLast?).getD c.origin := by
  induction ops using List.reverseRecOn with
  | nil => rfl
  | append_singleton rest op ih =>
      have hlast : c.run (rest ++ [op]) = op.apply (c.run rest) := List.foldl_append
      rw [hlast, (op.frame_apply _).origin, ih, List.filterMap_append]
      cases hop : op.origin? with
      | none => simp [hop]
      | some origin => simp [hop]

/-! ## Total maps -/

/-- The clipboard has a cell for each position of its region and for no other, and the cell at one
position can be set without a change to anything else. -/
structure Total (c : Clipboard) : Prop where
  size : c.cells.size = c.region.volume
  get? : ∀ p, (c.get? p).isSome = c.region.contains p
  block? : ∀ p, BlockStore.block? c p = c.get? p
  slot? : ∀ p, (c.slot? p).map Prod.fst = c.get? p
  /-- A cell is changed through its slot, and no other cell with it. -/
  edit : ∀ p f, (c.modify p f = match c.slot? p with
      | some (cell, put) => put (f cell)
      | none => c) ∧
    ∀ q, (c.modify p f).get? q = if p = q then (c.get? p).map f else c.get? q
  set : ∀ p cell, c.region.contains p = true →
    ∃ c', c.set p cell = .ok c' ∧ c'.region = c.region ∧ c'.origin = c.origin ∧
      c'.entities = c.entities ∧ ∀ q, c'.get? q = if p = q then some cell else c.get? q
  refused : ∀ p cell fault, c.set p cell = .error fault ↔
    c.region.contains p = false ∧ fault = .outOfBounds p
  setBlock : ∀ p cell, BlockStore.setBlock c p cell = match c.set p cell with
    | .ok c' => (.ok (), c')
    | .error fault => (.error fault, c)
  positions : c.positions.map Prod.fst = c.region.positions
  once : c.region.positions.Nodup ∧ ∀ p, p ∈ c.region.positions ↔ c.region.contains p = true
  paired : ∀ entry ∈ c.positions, c.get? entry.1 = some entry.2

theorem total (spanned : c.region.Spanned) : c.Total where
  size := c.size_cells
  get? := c.isSome_get?
  block? := fun _ => rfl
  slot? := c.map_fst_slot?
  edit := fun p f => ⟨c.modify_eq_slot p f, c.get?_modify f p⟩
  set := fun _ cell inside => set_of_inside inside cell
  refused := fun _ _ _ => set_eq_error_iff
  setBlock := c.setBlock_eq_set
  positions := c.map_fst_positions
  once := ⟨Region.nodup_positions spanned, fun _ => Region.mem_positions_iff spanned⟩
  paired := fun _ => get?_of_mem_positions spanned

/-- A clipboard that was made for a region is a total map on it after any operations, each of which
leaves the region as it is. Entities stand in the order in which they were added, the origin is the
last one that was set, and nothing at all changes when a cell is refused. -/
theorem run_total {region : Region} (sized : region.Sized) (origin : BlockPos)
    (ops : List Operation) :
    ((withOrigin region origin).run ops).region = region ∧
    ((withOrigin region origin).run ops).Total ∧
    ((withOrigin region origin).run ops).entities.toList = ops.filterMap Operation.entity? ∧
    ((withOrigin region origin).run ops).origin =
      ((ops.filterMap Operation.origin?).getLast?).getD origin ∧
    ∀ p cell, region.contains p = false →
      Operation.apply ((withOrigin region origin).run ops) (.set p cell) =
        (withOrigin region origin).run ops := by
  have hregion : ((withOrigin region origin).run ops).region = region := region_run _ ops
  refine ⟨hregion, total ?_, entities_run _ ops, origin_run _ ops, fun p cell outside => ?_⟩
  · rw [hregion]
    exact sized.toSpanned
  · rw [Operation.apply, set_eq_error_iff.2 ⟨by rw [hregion]; exact outside, rfl⟩]

/-- Two cells on both sides of the edge of the world. -/
def seamRegion : Region := ⟨⟨2147483647, 0, 0⟩, 2, 1, 1⟩

/-- A cell is set, changes places with the other one, and two entities come. -/
def seamOperations : List Operation :=
  [.set ⟨-2147483648, 0, 0⟩ { id := 1 }, .editCells fun _ cells => cells.reverse,
    .pushEntity { typeId := "Pig" }, .setOrigin .zero, .addEntity { typeId := "Cow" }]

theorem run_total_seamRegion :
    ((empty seamRegion).run seamOperations).positions.map Prod.fst =
      [⟨2147483647, 0, 0⟩, ⟨-2147483648, 0, 0⟩] ∧
    (((empty seamRegion).run seamOperations).get? ⟨-2147483648, 0, 0⟩).isSome = true ∧
    ((empty seamRegion).run seamOperations).entities.toList =
      [{ typeId := "Pig" }, { typeId := "Cow" }] ∧
    ((empty seamRegion).run seamOperations).set ⟨0, 0, 0⟩ { id := 1 } =
      .error (.outOfBounds ⟨0, 0, 0⟩) := by
  have hsized : seamRegion.Sized := ⟨⟨by decide, by decide, by decide⟩, by decide⟩
  rcases run_total hsized seamRegion.min seamOperations with ⟨hregion, htotal, hentities, -⟩
  refine ⟨?_, ?_, hentities, (htotal.refused _ _ _).2 ⟨?_, rfl⟩⟩
  · rw [empty, htotal.positions, hregion]
    decide
  · rw [empty, htotal.get?, hregion]
    decide
  · rw [hregion]
    decide

end VoxelSchematic.Clipboard
