import VoxelSchematic.Proofs.Notices
import VoxelSchematic.Proofs.Schematic.Remapping

/-!
# What is written

Which clipboards can be written, and what stands in the schematic that is written of one.

* `TooLong` says which side keeps a region from being written.
* `LowPlane` and `HighPlane` say how the low and the high bytes of the numbers of the cells stand
  in the planes, and when a plane for high bytes is written at all.
* `RecordOf` says what the record of a tile entity has from its cell and what from its tree.
* `Clipboard.toFile_writes` puts this together, for every clipboard and every registry.
-/

namespace VoxelSchematic

open Schematic Telling

/-! ## Sides -/

/-- A side of a region is the first one that is longer than a schematic can tell. -/
inductive TooLong (r : Region) : String → Nat → Prop
  | width : maxSide < r.width.toNat → TooLong r Field.width r.width.toNat
  | height : r.width.toNat ≤ maxSide → maxSide < r.height.toNat →
      TooLong r Field.height r.height.toNat
  | length : r.width.toNat ≤ maxSide → r.height.toNat ≤ maxSide → maxSide < r.length.toNat →
      TooLong r Field.length r.length.toNat

theorem TooLong.longSide?_eq {r : Region} {axis : String} {size : Nat} (h : TooLong r axis size) :
    Clipboard.longSide? r = some (axis, size) := by
  unfold Clipboard.longSide?
  cases h with
  | width hlong => simp [hlong]
  | height hwidth hlong => simp [Nat.not_lt.2 hwidth, hlong]
  | length hwidth hheight hlong => simp [Nat.not_lt.2 hwidth, Nat.not_lt.2 hheight, hlong]

theorem tooLong_or_small (r : Region) : (∃ axis size, TooLong r axis size) ∨ r.Small := by
  by_cases hwidth : r.width.toNat ≤ maxSide
  · by_cases hheight : r.height.toNat ≤ maxSide
    · by_cases hlength : r.length.toNat ≤ maxSide
      · exact .inr ⟨hwidth, hheight, hlength⟩
      · exact .inl ⟨_, _, .length hwidth hheight (Nat.not_le.1 hlength)⟩
    · exact .inl ⟨_, _, .height hwidth (Nat.not_le.1 hheight)⟩
  · exact .inl ⟨_, _, .width (Nat.not_le.1 hwidth)⟩

theorem TooLong.not_small {r : Region} {axis : String} {size : Nat} (h : TooLong r axis size) :
    ¬r.Small := by
  intro hsmall
  cases h.longSide?_eq.symm.trans (Clipboard.longSide?_eq_none_iff.2 hsmall)

/-! ## Planes -/

/-- A plane with the low byte of a number of each cell. -/
def LowPlane (c : Clipboard) (tree : Compound) (key : String) (number : Cell → Nat) : Prop :=
  ∃ bytes, tree.get? key = some (.byteArray bytes) ∧ bytes.size = c.region.volume ∧
    ∀ i (hi : i < c.cells.size), bytes[i]?.map UInt8.toNat = some (number c.cells[i] % 256)

/-- A plane with what a number of each cell has above its low byte. It is there if some cell has
anything, and else it reads as if it were zero everywhere. -/
structure HighPlane (c : Clipboard) (tree : Compound) (key : String) (number : Cell → Nat)
    (read : Array UInt8 → Nat → Option UInt8) (size : Nat) : Prop where
  stated : ∀ i (hi : i < c.cells.size),
    (((tree.getByteArray? key).bind (read · i)).getD 0).toNat = number c.cells[i] / 256
  written : tree.contains key = true ↔ ∃ cell ∈ c.cells, 255 < number cell
  shape : ∀ tag, tree.get? key = some tag → ∃ bytes, tag = .byteArray bytes ∧ bytes.size = size ∧
    ∀ i, c.region.volume ≤ i → ∀ value, read bytes i = some value → value = 0

/-- A record of a tile entity: its name as a text, the way to its cell, and besides these the
fields of the tree as they stand there. -/
structure RecordOf (placed : BlockPos × Compound) (record : Compound) : Prop where
  name : record.get? "id" = some (.string ((placed.2.getString? "id").getD ""))
  x : record.get? "x" = some (.int placed.1.x)
  y : record.get? "y" = some (.int placed.1.y)
  z : record.get? "z" = some (.int placed.1.z)
  other : ∀ key, isOwnKey key = true → record.get? key = placed.2.get? key
  order : record.entries.filter (fun entry => isOwnKey entry.1) =
    placed.2.entries.filter fun entry => isOwnKey entry.1

theorem recordOf_tileEntityRecord (placed : BlockPos × Compound) :
    RecordOf placed (tileEntityRecord placed.1 placed.2) := by
  rcases get?_tileEntityRecord placed.1 placed.2 with ⟨hid, hx, hy, hz⟩
  refine ⟨hid, hx, hy, hz, fun key hkey => ?_, filter_tileEntityRecord placed.1 placed.2⟩
  rw [get?_tileEntityRecord_of_isOwnKey placed.1 hkey, get?_bare_of_isOwnKey hkey]

namespace Clipboard

variable {c : Clipboard}

/-- What stands in a schematic of the cells of a clipboard. -/
structure WrittenIn (c : Clipboard) (tree : Compound) : Prop where
  blocks : LowPlane c tree Field.blocks fun cell => cell.id.toNat
  data : LowPlane c tree Field.data fun cell => cell.data.toNat
  /-- Of the block numbers, twelve bits are kept. -/
  addBlocks : HighPlane c tree Field.addBlocks (fun cell => cell.id.toNat % 4096) NibblePlane.get?
    ((c.region.volume + 1) / 2)
  extraData : HighPlane c tree Field.extraData (fun cell => cell.data.toNat)
    (fun plane i => plane[i]?) c.region.volume
  tileEntities : ∃ records, tree.get? Field.tileEntities =
    some (.list (TagList.ofCompounds records)) ∧ List.Forall₂ RecordOf c.placedTrees records

theorem lowPlane_fields {table : RemapTable} {key : String} {number : Cell → Nat} {f : Cell → UInt8}
    (h : (key, .byteArray (c.cells.map f)) ∈ c.fieldList table)
    (low : ∀ cell, (f cell).toNat = number cell % 256) : LowPlane c (c.fields table) key number := by
  refine ⟨_, get?_fields h, by rw [Array.size_map, c.size_cells], fun i hi => ?_⟩
  rw [Array.getElem?_map, Array.getElem?_eq_getElem hi, Option.map_some, Option.map_some, low]

/-- A plane that is written if needed, whatever way of packing is undone by reading. -/
theorem highPlane_fields {table : RemapTable} {key : String} {number : Cell → Nat}
    {f : Cell → UInt8} {pack : Array UInt8 → Array UInt8}
    {read : Array UInt8 → Nat → Option UInt8} {size : Nat}
    (h : (c.fields table).get? key = (neededPlane? (c.cells.map f) pack).map Tag.byteArray)
    (high : ∀ cell, (f cell).toNat = number cell / 256)
    (packed : (pack (c.cells.map f)).size = size)
    (inside : ∀ i (hi : i < c.cells.size), read (pack (c.cells.map f)) i = some (f c.cells[i]))
    (outside : ∀ i, c.cells.size ≤ i → ∀ value, read (pack (c.cells.map f)) i = some value → value = 0) :
    HighPlane c (c.fields table) key number read size where
  stated := by
    intro i hi
    rw [getByteArray?_of_get? h, ← high]
    rcases neededPlane?_cases (c := c) f pack with hsome | ⟨hnone, hzero⟩
    · rw [hsome, Option.bind_some, inside i hi, Option.getD_some]
    · rw [hnone, Option.bind_none, Option.getD_none, hzero i hi]
  written := by
    have hwide : ∀ cell, f cell ≠ 0 ↔ 255 < number cell := by
      intro cell
      rw [ne_eq, ← UInt8.toNat_inj, high, UInt8.toNat_zero]
      omega
    rw [OrderedMap.contains_eq_isSome_get?, h, Option.isSome_map, isSome_neededPlane?_iff]
    simp only [hwide]
  shape := by
    intro tag htag
    rw [h] at htag
    rcases Option.map_eq_some_iff.1 htag with ⟨plane, hplane, rfl⟩
    have hpacked : plane = pack (c.cells.map f) := by
      rcases neededPlane?_cases (c := c) f pack with hsome | ⟨hnone, -⟩
      · exact Option.some.inj (hplane.symm.trans hsome)
      · cases hplane.symm.trans hnone
    subst hpacked
    exact ⟨_, rfl, packed, fun i hi => outside i (c.size_cells ▸ hi)⟩

theorem writtenIn_fields (c : Clipboard) (table : RemapTable) : c.WrittenIn (c.fields table) where
  blocks := lowPlane_fields (by simp [fieldList]) Cell.toNat_lowId
  data := lowPlane_fields (by simp [fieldList]) Cell.toNat_lowData
  addBlocks := by
    refine highPlane_fields (get?_addBlocks c table) Cell.toNat_highId ?_ (fun i hi => ?_)
      fun i hi value hvalue => ?_
    · rw [NibblePlane.size_ofValues, Array.size_map, c.size_cells]
    · rw [NibblePlane.get?_ofValues _ (by rwa [Array.size_map]), Array.getElem_map, Cell.highId_and]
    · exact NibblePlane.eq_zero_of_get?_ofValues (by rwa [Array.size_map]) hvalue
  extraData := by
    have hget : (c.fields table).get? Field.extraData =
        (neededPlane? (c.cells.map Cell.highData) id).map Tag.byteArray := get?_extraData c table
    refine highPlane_fields hget Cell.toNat_highData ?_ (fun i hi => ?_) fun i hi value hvalue => ?_
    · rw [id, Array.size_map, c.size_cells]
    · simp [hi]
    · have hnone : (c.cells.map Cell.highData)[i]? = none := by simpa using hi
      rw [id, hnone] at hvalue
      cases hvalue
  tileEntities := by
    refine ⟨c.tileEntityRecords, get?_fields (by simp [fieldList]), ?_⟩
    rw [tileEntityRecords_eq, List.forall₂_map_right_iff, List.forall₂_same]
    exact fun placed _ => recordOf_tileEntityRecord placed

end Clipboard

/-! ## Reports -/

section

variable {ε : Type}

namespace RemapTable

theorem unreported_assign (t : IdTable) (name : String) (id : UInt16) :
    Unreported (assign t name id : Telling ε IdTable) := ⟨_, reports_assign t name id⟩

theorem unreported_recordBlock (t : RemapTable) (r : Registry) (id : UInt16) :
    Unreported (t.recordBlock r id : Telling ε (Bool × RemapTable)) := by
  unfold recordBlock
  cases r.blockName? id with
  | none => exact unreported_pure _
  | some name => exact (unreported_assign _ _ _).bind fun _ => unreported_pure _

theorem unreported_recordItem (t : RemapTable) (r : Registry) (id : UInt16) :
    Unreported (t.recordItem r id : Telling ε (Bool × RemapTable)) := by
  unfold recordItem
  cases r.itemName? id with
  | none => exact unreported_pure _
  | some name => exact (unreported_assign _ _ _).bind fun _ => unreported_pure _

end RemapTable

namespace Compound

theorem unreported_recordName (r : Registry) (kind : IdKind) (id : UInt16) (t : RemapTable) :
    Unreported (recordName r kind id t : Telling ε RemapTable) := by
  cases kind with
  | block => exact (RemapTable.unreported_recordBlock t r id).bind fun _ => unreported_pure _
  | item =>
      refine (RemapTable.unreported_recordItem t r id).bind fun named => ?_
      rcases named with ⟨named, t'⟩
      cases named with
      | true => exact unreported_pure t'
      | false => exact (unreported_log _ _).bind fun _ => unreported_pure t'

theorem unreported_recordIds (tree : Compound) (r : Registry) (t : RemapTable) :
    Unreported (tree.recordIds r t : Telling ε RemapTable) := by
  rw [recordIds_eq_foldlM]
  exact unreported_foldlM (fun t held => unreported_recordName r held.1 held.2 t) tree.heldIds t

end Compound

namespace Clipboard

/-- What is reported of cells: the first number that has too many bits. -/
def truncationReports (cells : List Cell) : List Report :=
  ((cells.find? fun cell => decide (4095 < cell.id.toNat)).map fun cell =>
    ⟨.warning, truncationReport cell.id⟩).toList

theorem reports_nameCells (c : Clipboard) (r : Registry) (truncated : Bool)
    (cells : List (Cell × Nat)) (table : RemapTable) :
    ∃ t, Reports (c.nameCells r truncated cells table : Telling ε RemapTable) t
      (if truncated then [] else truncationReports (cells.map Prod.fst)) := by
  -- `truncated` is what says that the first number with too many bits has been met.
  induction cells generalizing truncated table with
  | nil => exact ⟨table, by cases truncated <;> exact reports_pure table⟩
  | cons entry rest ih =>
      rcases entry with ⟨cell, i⟩
      have hfirst : (if truncated = true then [] else
          truncationReports (cell :: rest.map Prod.fst)) =
          (if (decide (cell.id > maxBlockId) && !truncated) = true then
            [⟨.warning, truncationReport cell.id⟩] else []) ++
          if (truncated || decide (cell.id > maxBlockId)) = true then [] else
            truncationReports (rest.map Prod.fst) := by
        have hhigh : decide (cell.id > maxBlockId) = decide (4095 < cell.id.toNat) := rfl
        rw [truncationReports, List.find?_cons, hhigh]
        cases truncated <;> cases decide (4095 < cell.id.toNat) <;> rfl
      rcases RemapTable.unreported_recordBlock (ε := ε) table r cell.storedId with
        ⟨⟨named, mid⟩, hblock⟩
      rw [List.map_cons, hfirst, nameCells]
      cases cell.tree with
      | none =>
          rcases ih (truncated || decide (cell.id > maxBlockId)) mid with ⟨t, hrest⟩
          exact ⟨t, .after_warn _ _ (hblock.bind ((reports_pure mid).bind hrest))⟩
      | some tree =>
          rcases Compound.unreported_recordIds (ε := ε)
            (tileEntityRecord (c.region.relativePosition i) tree) r mid with ⟨next, htree⟩
          rcases ih (truncated || decide (cell.id > maxBlockId)) next with ⟨t, hrest⟩
          exact ⟨t, .after_warn _ _ (hblock.bind (htree.bind hrest))⟩

theorem truncationReports_ne_nil_iff {cells : List Cell} :
    truncationReports cells ≠ [] ↔ ∃ cell ∈ cells, 4095 < cell.id.toNat := by
  unfold truncationReports
  cases hfirst : cells.find? fun cell => decide (4095 < cell.id.toNat) with
  | none =>
      refine iff_of_false (not_not_intro rfl) ?_
      rintro ⟨cell, hcell, hhigh⟩
      exact List.find?_eq_none.1 hfirst cell hcell (decide_eq_true hhigh)
  | some cell =>
      have hhigh : 4095 < cell.id.toNat := by simpa using List.find?_some hfirst
      exact iff_of_true nofun ⟨cell, List.mem_of_find?_eq_some hfirst, hhigh⟩

theorem length_truncationReports_le (cells : List Cell) : (truncationReports cells).length ≤ 1 :=
  Option.length_toList_le

end Clipboard

end

namespace Clipboard

/-- The sides are looked at before anything is said. -/
theorem toFile_of_tooLong {c : Clipboard} {axis : String} {size : Nat}
    (h : TooLong c.region axis size) (r : Registry) (said : Array Notice) :
    c.toFile r said = .error (.sideTooLong axis size) said := by
  unfold toFile
  rw [h.longSide?_eq]
  rfl

theorem toFile_of_small {c : Clipboard} (small : c.region.Small) (r : Registry) :
    ∃ t, Reports (c.toFile r) ⟨rootName, .compound (c.fields t)⟩
      (truncationReports c.cells.toList) := by
  have hnames := c.reports_nameCells (ε := SchematicError) r false c.cells.toList.zipIdx .empty
  rw [List.zipIdx_map_fst] at hnames
  rcases hnames with ⟨t, hnames⟩
  refine ⟨t, ?_⟩
  unfold toFile
  rw [longSide?_eq_none_iff.2 small]
  exact hnames.bind_unreported (reports_pure _)

end Clipboard

/-- A clipboard is written unless a side is too long, whatever its cells hold. What is written
states the cells, and at most one number with too many bits is reported. -/
theorem Clipboard.toFile_writes (c : Clipboard) (r : Registry) (said : Array Notice) :
    (∀ fault said', c.toFile r said = .error fault said' ↔
      said' = said ∧ ∃ axis size, fault = .sideTooLong axis size ∧ TooLong c.region axis size) ∧
    ((∃ file said', c.toFile r said = .ok file said') ↔ c.region.Small) ∧
    ∀ file said', c.toFile r said = .ok file said' → ∃ tree, ∃ notices : List Notice,
      file = ⟨rootName, .compound tree⟩ ∧ c.WrittenIn tree ∧ said' = said ++ notices ∧
      reportsOf notices = truncationReports c.cells.toList ∧ (reportsOf notices).length ≤ 1 ∧
      (reportsOf notices ≠ [] ↔ ∃ cell ∈ c.cells, 4095 < cell.id.toNat) := by
  rcases tooLong_or_small c.region with ⟨axis, size, hlong⟩ | small
  · have hfails := toFile_of_tooLong hlong r said
    refine ⟨fun fault said' => ⟨fun h => ?_, ?_⟩, iff_of_false ?_ hlong.not_small,
      fun file said' h => ?_⟩
    · cases hfails.symm.trans h
      exact ⟨rfl, axis, size, rfl, hlong⟩
    · rintro ⟨rfl, axis', size', rfl, hlong'⟩
      exact toFile_of_tooLong hlong' r _
    · rintro ⟨file, said', h⟩
      cases hfails.symm.trans h
    · cases hfails.symm.trans h
  · rcases toFile_of_small small r with ⟨t, notices, htells, hreports⟩
    have hwrites := htells said
    refine ⟨fun fault said' => ⟨fun h => ?_, ?_⟩, iff_of_true ⟨_, _, hwrites⟩ small,
      fun file said' h => ?_⟩
    · cases hwrites.symm.trans h
    · rintro ⟨-, axis, size, -, hlong⟩
      exact absurd small hlong.not_small
    · cases hwrites.symm.trans h
      refine ⟨_, notices, rfl, c.writtenIn_fields t, rfl, hreports, ?_, ?_⟩
      · rw [hreports]
        exact length_truncationReports_le _
      · rw [hreports, truncationReports_ne_nil_iff]
        simp only [Array.mem_toList_iff]

end VoxelSchematic
