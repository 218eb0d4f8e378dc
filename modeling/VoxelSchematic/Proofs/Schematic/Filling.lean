import VoxelSchematic.Proofs.NibblePlane
import VoxelSchematic.Proofs.Schematic.RoundTrip

/-!
# Planes that are filled cell by cell

The fields of a schematic say what its planes come to. They can be filled in a single walk over the
cells: each cell writes its bytes and appends its record, and a plane for high bits is made when the
first cell needs it.

* `Clipboard.Filling.take` is one step of this walk, and `Clipboard.foldlM_take` what any number of
  steps come to.
* `setBytes_writesOf` and `NibblePlane.setAll_writesOf`: the writes of the cells that need one leave
  the value of each cell in its place.
* `Clipboard.toFileByCells_eq`: the walk gives the same schematic, and says the same on the way.
-/

namespace VoxelSchematic

open Schematic Telling

/-! ## Writes to planes -/

/-- What becomes of a plane of bytes by writes, each an index and a value, in their order. -/
def setBytes (plane : Array UInt8) (writes : List (Nat × UInt8)) : Array UInt8 :=
  writes.foldl (fun plane write => plane.setIfInBounds write.1 write.2) plane

/-- The writes of the cells that need one, each under the number of its cell. -/
def writesOf (cells : Array Cell) (needs : Cell → Bool) (value : Cell → UInt8) :
    List (Nat × UInt8) :=
  (cells.toList.zipIdx.filter fun entry => needs entry.1).map fun entry => (entry.2, value entry.1)

section

variable {plane values : Array UInt8} {writes : List (Nat × UInt8)} {cells : Array Cell}
  {needs : Cell → Bool} {value : Cell → UInt8}

theorem size_setBytes (plane : Array UInt8) (writes : List (Nat × UInt8)) :
    (setBytes plane writes).size = plane.size := by
  induction writes generalizing plane with
  | nil => rfl
  | cons write rest ih => exact (ih _).trans Array.size_setIfInBounds

/-- Writes that agree with each other leave their values, in whichever order they come. -/
theorem getElem?_setBytes (hsize : plane.size = values.size)
    (hfrom : ∀ write ∈ writes, values[write.1]? = some write.2) (i : Nat) :
    (setBytes plane writes)[i]? =
      if ∃ write ∈ writes, write.1 = i then values[i]? else plane[i]? := by
  -- Each write puts what is to be there in the end, so it does not matter which one is the last.
  induction writes generalizing plane with
  | nil => simp [setBytes]
  | cons write rest ih =>
      have hwrite : values[write.1]? = some write.2 := hfrom write List.mem_cons_self
      have hin : write.1 < plane.size := hsize ▸ (Array.getElem?_eq_some_iff.1 hwrite).1
      have hstep : setBytes plane (write :: rest) =
          setBytes (plane.setIfInBounds write.1 write.2) rest := rfl
      rw [hstep, ih (Array.size_setIfInBounds.trans hsize) fun later hlater =>
        hfrom later (List.mem_cons_of_mem _ hlater), Array.getElem?_setIfInBounds]
      by_cases hi : write.1 = i
      · subst hi
        simp [hwrite, hin]
      · simp [hi]

theorem mem_writesOf_iff {write : Nat × UInt8} : write ∈ writesOf cells needs value ↔
    ∃ cell, cells[write.1]? = some cell ∧ needs cell = true ∧ value cell = write.2 := by
  rcases write with ⟨i, v⟩
  simp only [writesOf, List.mem_map, List.mem_filter, Prod.exists, Prod.mk.injEq,
    List.mk_mem_zipIdx_iff_getElem?, Array.getElem?_toList]
  constructor
  · rintro ⟨cell, j, ⟨hcell, hneeds⟩, rfl, hvalue⟩
    exact ⟨cell, hcell, hneeds, hvalue⟩
  · rintro ⟨cell, hcell, hneeds, hvalue⟩
    exact ⟨cell, i, ⟨hcell, hneeds⟩, rfl, hvalue⟩

theorem getElem?_of_mem_writesOf {write : Nat × UInt8} (h : write ∈ writesOf cells needs value) :
    (cells.map value)[write.1]? = some write.2 := by
  rcases mem_writesOf_iff.1 h with ⟨cell, hcell, -, hvalue⟩
  rw [Array.getElem?_map, hcell, Option.map_some, hvalue]

/-- Only zeros may go without a write. -/
theorem mem_writesOf_of_ne_zero (hneeds : ∀ cell, value cell ≠ 0 → needs cell = true) (i : Nat)
    (hi : i < (cells.map value).size) (hne : (cells.map value)[i] ≠ 0) :
    (i, (cells.map value)[i]) ∈ writesOf cells needs value := by
  rw [Array.getElem_map] at hne ⊢
  rw [Array.size_map] at hi
  exact mem_writesOf_iff.2 ⟨cells[i], Array.getElem?_eq_getElem hi, hneeds _ hne, rfl⟩

theorem setBytes_writesOf (hneeds : ∀ cell, value cell ≠ 0 → needs cell = true) :
    setBytes (Array.replicate cells.size 0) (writesOf cells needs value) = cells.map value := by
  have hsize : (Array.replicate cells.size (0 : UInt8)).size = (cells.map value).size := by simp
  refine Array.ext_getElem? fun i => ?_
  rw [getElem?_setBytes hsize fun write => getElem?_of_mem_writesOf]
  split
  next => rfl
  next hnone =>
    -- What is not written is zero, and so is what it would have been.
    by_cases hi : i < cells.size
    · have hzero : value cells[i] = 0 := by
        by_contra hne
        exact hnone ⟨_, mem_writesOf_of_ne_zero hneeds i (by rwa [Array.size_map])
          (by rwa [Array.getElem_map]), rfl⟩
      simp [hi, hzero]
    · simp [hi]

/-- Nibble by nibble the cells fill a plane as `NibblePlane.ofValues` packs it. -/
theorem NibblePlane.setAll_writesOf (hvolume : cells.size < UInt64.size - 1)
    (hneeds : ∀ cell, value cell ≠ 0 → needs cell = true) :
    setAll (zeros cells.size) (writesOf cells needs value) = ofValues (cells.map value) := by
  have hfilled : setAll (zeros (cells.map value).size) (writesOf cells needs value) =
      ofValues (cells.map value) :=
    setAll_zeros (by rwa [Array.size_map]) (fun write => getElem?_of_mem_writesOf)
      (mem_writesOf_of_ne_zero hneeds)
  rwa [Array.size_map] at hfilled

theorem isEmpty_writesOf (hneeds : ∀ cell, needs cell = true ↔ value cell ≠ 0) :
    (writesOf cells needs value).isEmpty = !(cells.map value).any (· != 0) := by
  cases hwrites : writesOf cells needs value with
  | nil =>
      have hzero : (cells.map value).any (· != 0) = false := by
        rw [Array.any_eq_false]
        intro i hi hne
        have hmem := mem_writesOf_of_ne_zero (fun cell => (hneeds cell).2) i hi (by simpa using hne)
        rw [hwrites] at hmem
        cases hmem
      rw [hzero]
      rfl
  | cons write rest =>
      have hany : (cells.map value).any (· != 0) = true := by
        have hmem : write ∈ writesOf cells needs value := hwrites ▸ List.mem_cons_self
        rcases mem_writesOf_iff.1 hmem with ⟨cell, hcell, hneeded, -⟩
        rcases Array.getElem?_eq_some_iff.1 hcell with ⟨hi, rfl⟩
        rw [Array.any_eq_true]
        exact ⟨write.1, by rwa [Array.size_map], by simpa using (hneeds _).1 hneeded⟩
      rw [hany]
      rfl

end

/-! ## Planes that are made when they are needed -/

/-- A write to a plane that is made for the first write. -/
def writeLate (set : Array UInt8 → Nat × UInt8 → Array UInt8) (fresh : Array UInt8)
    (plane? : Option (Array UInt8)) (write : Nat × UInt8) : Option (Array UInt8) :=
  some (set (plane?.getD fresh) write)

theorem foldl_writeLate (set : Array UInt8 → Nat × UInt8 → Array UInt8) (fresh : Array UInt8)
    (plane? : Option (Array UInt8)) (writes : List (Nat × UInt8)) :
    writes.foldl (writeLate set fresh) plane? =
      if writes.isEmpty then plane? else some (writes.foldl set (plane?.getD fresh)) := by
  induction writes generalizing plane? with
  | nil => rfl
  | cons write rest ih =>
      rw [List.foldl_cons, ih]
      cases rest with
      | nil => rfl
      | cons later rest => rfl

/-! ## The walk -/

/-- What the cells so far have written to the planes. -/
@[ext]
structure FilledPlanes where
  blocks : Array UInt8
  data : Array UInt8
  extra : Option (Array UInt8)
  adds : Option (Array UInt8)

/-- There are no planes for high bits at first. -/
def FilledPlanes.zeros (volume : Nat) : FilledPlanes :=
  ⟨Array.replicate volume 0, Array.replicate volume 0, none, none⟩

/-- Writes the bytes of a cell under its number. -/
def FilledPlanes.put (volume : Nat) (p : FilledPlanes) (entry : Cell × Nat) : FilledPlanes :=
  let (cell, i) := entry
  let adds :=
    if 0xFF < cell.storedId then
      some (NibblePlane.set (p.adds.getD (NibblePlane.zeros volume)) i
        (cell.storedId >>> 8).toUInt8)
    else p.adds
  let extra :=
    if 0xFF < cell.data then
      some ((p.extra.getD (Array.replicate volume 0)).setIfInBounds i (cell.data >>> 8).toUInt8)
    else p.extra
  ⟨p.blocks.setIfInBounds i cell.storedId.toUInt8, p.data.setIfInBounds i cell.data.toUInt8, extra,
    adds⟩

/-- What a walk has made of the cells so far. -/
structure Filling where
  planes : FilledPlanes
  records : TagList
  table : RemapTable
  /-- Whether a number with too many bits has been reported. -/
  truncated : Bool

/-- Takes a cell: its bytes go to the planes and its record to the list, and the numbers in both are
named. -/
def Filling.take (region : Region) (registry : Registry) (f : Filling) (entry : Cell × Nat) :
    Telling SchematicError Filling := do
  let (cell, i) := entry
  let tooHigh := cell.id > maxBlockId
  if tooHigh && !f.truncated then warn (truncationReport cell.id)
  let planes := f.planes.put region.volume entry
  let (_, table) ← f.table.recordBlock registry cell.storedId
  match cell.tree with
  | none => return ⟨planes, f.records, table, f.truncated || tooHigh⟩
  | some tree =>
      let record := tileEntityRecord (region.relativePosition i) tree
      let table ← record.recordIds registry table
      let records ← .ofExcept ((f.records.push (.compound record)).mapError .ofTag)
      return ⟨planes, records, table, f.truncated || tooHigh⟩

/-- A list of compounds takes every record. -/
theorem TagList.push_ofCompounds (done : List Compound) (record : Compound) :
    (ofCompounds done).push (.compound record) =
      .ok (ofCompounds (done ++ [record])) := by
  have hadmits : (ofCompounds done).admits (.compound record) = .compound := by
    simp [admits, ofCompounds]
  rw [push, hadmits]
  simp [ofCompounds, Tag.kind]

namespace Clipboard

variable {c : Clipboard} {registry : Registry}

/-- The fields of a schematic, with what a walk has made of the cells. -/
def filledFields (c : Clipboard) (f : Filling) : Compound :=
  let offset := c.region.min - c.origin
  let (blockNames, itemNames) := f.table.toSections
  .ofList (
    [(Field.width, sideTag c.region.width), (Field.length, sideTag c.region.length),
      (Field.height, sideTag c.region.height), (Field.materials, .string alpha)]
    ++ Field.origin.zip [.int c.region.min.x, .int c.region.min.y, .int c.region.min.z]
    ++ Field.offset.zip [.int offset.x, .int offset.y, .int offset.z]
    ++ [(Field.blocks, .byteArray f.planes.blocks), (Field.data, .byteArray f.planes.data)]
    ++ (f.planes.extra.map fun plane => (Field.extraData, .byteArray plane)).toList
    ++ (f.planes.adds.map fun plane => (Field.addBlocks, .byteArray plane)).toList
    ++ [(Field.tileEntities, .list f.records),
      (Field.entities, .list (TagList.ofCompounds (c.entities.toList.map Entity.record))),
      (Field.blockMapping, .compound blockNames), (Field.itemMapping, .compound itemNames)])

/-- Writes a clipboard as a schematic in a single walk over its cells. -/
def toFileByCells (c : Clipboard) (registry : Registry) : Telling SchematicError TagFile := do
  if let some (axis, size) := longSide? c.region then throw (.sideTooLong axis size)
  let filled ← c.cells.toList.zipIdx.foldlM (Filling.take c.region registry)
    ⟨.zeros c.region.volume, .empty .compound, .empty, false⟩
  return ⟨rootName, .compound (c.filledFields filled)⟩

/-- The records of some cells. -/
def recordsOf (c : Clipboard) (entries : List (Cell × Nat)) : List Compound :=
  entries.filterMap fun entry =>
    entry.1.tree.map (tileEntityRecord (c.region.relativePosition entry.2))

/-- The names that one cell adds. -/
def nameCell (c : Clipboard) (registry : Registry) (truncated : Bool) (entry : Cell × Nat)
    (table : RemapTable) : Telling SchematicError RemapTable := do
  let (cell, i) := entry
  if cell.id > maxBlockId && !truncated then warn (truncationReport cell.id)
  let (_, table) ← table.recordBlock registry cell.storedId
  match cell.tree with
  | some tree =>
      (tileEntityRecord (c.region.relativePosition i) tree).recordIds registry table
  | none => return table

theorem nameCells_cons (truncated : Bool) (entry : Cell × Nat) (rest : List (Cell × Nat))
    (table : RemapTable) :
    c.nameCells registry truncated (entry :: rest) table =
      c.nameCell registry truncated entry table >>=
        c.nameCells registry (truncated || entry.1.id > maxBlockId) rest := by
  rcases entry with ⟨cell, i⟩
  simp only [nameCells, nameCell]
  split <;> cases cell.tree <;> simp only [bind_assoc, pure_bind]

/-- A step writes the bytes of its cell, adds its names, and appends its record if it has a tree. -/
theorem take_eq (entry : Cell × Nat) (p : FilledPlanes) (done : List Compound) (table : RemapTable)
    (truncated : Bool) :
    Filling.take c.region registry ⟨p, TagList.ofCompounds done, table, truncated⟩ entry = do
      let table ← c.nameCell registry truncated entry table
      return ⟨p.put c.region.volume entry, TagList.ofCompounds (done ++ c.recordsOf [entry]), table,
        truncated || entry.1.id > maxBlockId⟩ := by
  rcases entry with ⟨cell, i⟩
  simp only [Filling.take, nameCell, TagList.push_ofCompounds]
  cases htree : cell.tree with
  | none =>
      have hrecords : c.recordsOf [(cell, i)] = [] := by simp [recordsOf, htree]
      rw [hrecords, List.append_nil]
      split <;> simp only [bind_assoc, pure_bind]
  | some tree =>
      have hrecords : c.recordsOf [(cell, i)] =
          [tileEntityRecord (c.region.relativePosition i) tree] := by simp [recordsOf, htree]
      rw [hrecords]
      split <;> simp only [bind_assoc] <;> rfl

/-- A walk writes the bytes of its cells, adds their names, and appends their records. -/
theorem foldlM_take (entries : List (Cell × Nat)) (p : FilledPlanes) (done : List Compound)
    (table : RemapTable) (truncated : Bool) :
    entries.foldlM (Filling.take c.region registry)
        ⟨p, TagList.ofCompounds done, table, truncated⟩ = do
      let table ← c.nameCells registry truncated entries table
      return ⟨entries.foldl (FilledPlanes.put c.region.volume) p,
        TagList.ofCompounds (done ++ c.recordsOf entries), table,
        truncated || entries.any fun entry => entry.1.id > maxBlockId⟩ := by
  -- Planes and records depend on the cells alone, so a step says what is said when its cell is
  -- named, and no more.
  induction entries generalizing p done table truncated with
  | nil => simp [nameCells, recordsOf]
  | cons entry rest ih =>
      have hrecords : c.recordsOf (entry :: rest) = c.recordsOf [entry] ++ c.recordsOf rest :=
        List.filterMap_append (l := [entry])
      rw [List.foldlM_cons, take_eq, nameCells_cons, hrecords, List.foldl_cons, List.any_cons,
        ← List.append_assoc, ← Bool.or_assoc]
      simp only [bind_assoc, pure_bind, ih]

/-! ## What the planes come to -/

theorem toUInt8_shiftRight (v : UInt16) : (v >>> 8).toUInt8 = (v.toNat / 256).toUInt8 := by
  apply UInt8.toNat_inj.1
  have hlt := v.toNat_lt
  have hshift : v.toNat >>> 8 = v.toNat / 256 := Nat.shiftRight_eq_div_pow _ 8
  rw [toNat_div_toUInt8, UInt16.toNat_toUInt8, UInt16.toNat_shiftRight]
  change v.toNat >>> 8 % 256 = _
  rw [hshift]
  omega

/-- What is above the low byte has to be written if it is not zero. -/
theorem lt_iff_high_ne_zero (v : UInt16) : 0xFF < v ↔ (v.toNat / 256).toUInt8 ≠ 0 := by
  rw [ne_eq, ← UInt8.toNat_inj, toNat_div_toUInt8, UInt16.lt_iff_toNat_lt]
  change 255 < v.toNat ↔ ¬v.toNat / 256 = 0
  omega

section

variable (volume : Nat) (cells : Array Cell) (p : FilledPlanes)

theorem blocks_put :
    (cells.toList.zipIdx.foldl (FilledPlanes.put volume) p).blocks =
      setBytes p.blocks (writesOf cells (fun _ => true) fun cell => cell.storedId.toUInt8) := by
  rw [setBytes, writesOf, List.filter_true, List.foldl_map]
  exact (List.foldl_hom FilledPlanes.blocks fun _ _ => rfl).symm

theorem data_put :
    (cells.toList.zipIdx.foldl (FilledPlanes.put volume) p).data =
      setBytes p.data (writesOf cells (fun _ => true) fun cell => cell.data.toUInt8) := by
  rw [setBytes, writesOf, List.filter_true, List.foldl_map]
  exact (List.foldl_hom FilledPlanes.data fun _ _ => rfl).symm

theorem extra_put :
    (cells.toList.zipIdx.foldl (FilledPlanes.put volume) p).extra =
      (writesOf cells (fun cell => 0xFF < cell.data) Cell.highData).foldl
        (writeLate (fun plane write => plane.setIfInBounds write.1 write.2)
          (Array.replicate volume 0)) p.extra := by
  rw [writesOf, List.foldl_map, List.foldl_filter]
  refine (List.foldl_hom FilledPlanes.extra fun p entry => ?_).symm
  simp only [FilledPlanes.put, writeLate, Cell.highData, ← toUInt8_shiftRight, decide_eq_true_eq]

theorem adds_put :
    (cells.toList.zipIdx.foldl (FilledPlanes.put volume) p).adds =
      (writesOf cells (fun cell => 0xFF < cell.storedId) Cell.highId).foldl
        (writeLate (fun plane write => NibblePlane.set plane write.1 write.2)
          (NibblePlane.zeros volume)) p.adds := by
  rw [writesOf, List.foldl_map, List.foldl_filter]
  refine (List.foldl_hom FilledPlanes.adds fun p entry => ?_).symm
  simp only [FilledPlanes.put, writeLate, Cell.highId, ← toUInt8_shiftRight, decide_eq_true_eq]

end

/-- A plane that is made for the first write is there if some cell needs it, and then holds the
values of all cells. -/
theorem foldl_writeLate_writesOf {cells : Array Cell} {needs : Cell → Bool} {value : Cell → UInt8}
    {set : Array UInt8 → Nat × UInt8 → Array UInt8} {fresh : Array UInt8}
    {pack : Array UInt8 → Array UInt8} (hneeds : ∀ cell, needs cell = true ↔ value cell ≠ 0)
    (hset : (writesOf cells needs value).foldl set fresh = pack (cells.map value)) :
    (writesOf cells needs value).foldl (writeLate set fresh) none =
      neededPlane? (cells.map value) pack := by
  rw [foldl_writeLate, isEmpty_writesOf hneeds, Option.getD_none, hset, neededPlane?]
  cases (cells.map value).any (· != 0) <;> rfl

/-- The planes of a clipboard, as they are after a walk over its cells. -/
def filled (c : Clipboard) : FilledPlanes where
  blocks := c.cells.map fun cell => cell.storedId.toUInt8
  data := c.cells.map fun cell => cell.data.toUInt8
  extra := neededPlane? (c.cells.map Cell.highData) id
  adds := neededPlane? (c.cells.map Cell.highId) NibblePlane.ofValues

/-- Sides that fit in a schematic leave room for the sum with which the bytes of a plane are
counted. -/
theorem size_cells_lt (small : c.region.Small) : c.cells.size < UInt64.size - 1 := by
  rcases small with ⟨hwidth, hheight, hlength⟩
  calc
    c.cells.size = c.region.width.toNat * c.region.height.toNat * c.region.length.toNat :=
      c.size_cells
    _ ≤ maxSide * maxSide * maxSide := Nat.mul_le_mul (Nat.mul_le_mul hwidth hheight) hlength
    _ < UInt64.size - 1 := by decide

theorem foldl_put (small : c.region.Small) :
    c.cells.toList.zipIdx.foldl (FilledPlanes.put c.region.volume) (.zeros c.region.volume) =
      c.filled := by
  -- A cell needs a plane for high bits exactly if its high bits are not zero.
  have hextra : ∀ cell : Cell, decide (0xFF < cell.data) = true ↔ cell.highData ≠ 0 :=
    fun cell => decide_eq_true_iff.trans (lt_iff_high_ne_zero cell.data)
  have hadds : ∀ cell : Cell, decide (0xFF < cell.storedId) = true ↔ cell.highId ≠ 0 :=
    fun cell => decide_eq_true_iff.trans (lt_iff_high_ne_zero cell.storedId)
  rw [← c.size_cells]
  apply FilledPlanes.ext
  case blocks =>
    rw [blocks_put]
    exact setBytes_writesOf fun _ _ => rfl
  case data =>
    rw [data_put]
    exact setBytes_writesOf fun _ _ => rfl
  case extra =>
    rw [extra_put]
    exact foldl_writeLate_writesOf hextra (setBytes_writesOf fun cell => (hextra cell).2)
  case adds =>
    rw [adds_put]
    exact foldl_writeLate_writesOf hadds
      (NibblePlane.setAll_writesOf (size_cells_lt small) fun cell => (hadds cell).2)

theorem filledFields_filled (c : Clipboard) (table : RemapTable) (truncated : Bool) :
    c.filledFields ⟨c.filled, TagList.ofCompounds c.tileEntityRecords, table, truncated⟩ =
      c.fields table := by
  simp only [filledFields, filled, fields, optionalPlane_eq]

/-- Filling the planes in a walk gives the same schematic, or the same fault, with the same
notices. -/
theorem toFileByCells_eq (c : Clipboard) (registry : Registry) :
    c.toFileByCells registry = c.toFile registry := by
  unfold toFileByCells toFile
  cases hsides : longSide? c.region with
  | some side => rfl
  | none =>
      -- No side is too long from here on, so there are few enough cells for their planes.
      have small := longSide?_eq_none_iff.1 hsides
      have hrecords : [] ++ c.recordsOf c.cells.toList.zipIdx = c.tileEntityRecords := rfl
      have hempty : TagList.empty .compound = TagList.ofCompounds [] := rfl
      simp only [hempty, foldlM_take, foldl_put small, hrecords, bind_assoc, pure_bind,
        filledFields_filled]
      rfl

end Clipboard

end VoxelSchematic
