import VoxelSchematic.Proofs.Schematic.Faults
import VoxelSchematic.Proofs.Schematic.Planes

/-!
# What a file says of a cell

The numbers and the tree that each cell of a schematic has by what stands in the file, in whatever
planes there are, and what becomes of each record of a tile entity.

* `Compound.statedId` and `Compound.statedData` put the numbers of a cell together as numbers, from
  planes of any length.
* `Compound.stripped` is what is left of a record, and `lastAt?` chooses among the records that are
  at one place.
* `TagFile.readClipboard_stated`: a clipboard that was read is what the file says, cell by cell, and
  no record is lost but to a later one or outside the region.
-/

namespace VoxelSchematic

open Schematic Telling

/-! ## Numbers -/

namespace Compound

/-- The byte under a number in a plane; zero where the plane is missing or does not reach so far. -/
def byteAt (tree : Compound) (key : String) (i : Nat) : Nat :=
  (((tree.getByteArray? key).bind fun plane => plane[i]?).getD 0).toNat

/-- The half of a byte under a number in a plane, if the plane reaches so far. Even numbers have the
low half. -/
def nibbleAt? (tree : Compound) (key : String) (i : Nat) : Option Nat :=
  (tree.getByteArray? key).bind fun plane => plane[i / 2]?.map fun byte =>
    if i % 2 = 0 then byte.toNat % 16 else byte.toNat / 16

/-- The block number of a cell in the file. -/
def statedId (tree : Compound) (i : Nat) : Nat :=
  tree.byteAt Field.blocks i +
    256 * ((tree.nibbleAt? Field.addBlocks2 i).or (tree.nibbleAt? Field.addBlocks i)).getD 0

/-- The data value of a cell in the file. -/
def statedData (tree : Compound) (i : Nat) : Nat :=
  tree.byteAt Field.data i + 256 * tree.byteAt
    (if (tree.getByteArray? Field.extraData).isSome then Field.extraData else Field.addData) i

end Compound

namespace Decoded

variable {tree : Compound} {key : String} {volume : Nat}

theorem of_plane {bytes : Array UInt8} (h : plane tree key volume = .ok bytes) :
    tree.getByteArray? key = some bytes ∧ bytes.size = volume := by
  simp only [plane, Outcome.except_bind_eq_ok_iff, required_eq_ok_iff] at h
  rcases h with ⟨found, hfound, hsize⟩
  split at hsize
  · next hvolume =>
      cases hsize
      exact ⟨hfound, hvolume⟩
  · cases hsize

theorem of_planesOf {p : Planes} (h : planesOf tree volume = .ok p) :
    (tree.getByteArray? Field.blocks = some p.blocks ∧ p.blocks.size = volume) ∧
      (tree.getByteArray? Field.data = some p.data ∧ p.data.size = volume) ∧
      p.extra = (tree.getByteArray? Field.extraData).or (tree.getByteArray? Field.addData) ∧
      p.adds = [Field.addBlocks, Field.addBlocks2].filterMap tree.getByteArray? := by
  simp only [planesOf, Outcome.except_bind_eq_ok_iff] at h
  rcases h with ⟨blocks, hblocks, data, hdata, hp⟩
  cases hp
  exact ⟨of_plane hblocks, of_plane hdata, rfl, rfl⟩

theorem map_toNat_get? (tree : Compound) (key : String) (i : Nat) :
    ((tree.getByteArray? key).bind fun plane => NibblePlane.get? plane i).map UInt8.toNat =
      tree.nibbleAt? key i := by
  unfold Compound.nibbleAt? NibblePlane.get?
  cases tree.getByteArray? key with
  | none => rfl
  | some plane => simp [Function.comp_def, NibblePlane.toNat_half]

theorem toNat_blockId_of_planesOf {p : Planes} (h : planesOf tree volume = .ok p) (i : Nat) :
    (p.blockId i).toNat = tree.statedId i := by
  rcases of_planesOf h with ⟨⟨hblocks, -⟩, -, -, hadds⟩
  have hlow : (p.blocks[i]?.getD 0).toNat = tree.byteAt Field.blocks i := by
    rw [Compound.byteAt, hblocks, Option.bind_some]
  have hpair : ∀ (read : String → Option UInt8) (a b : String),
      [a, b].findSome? read = (read a).or (read b) := by
    intro read a b
    cases ha : read a <;> cases hb : read b <;> simp [ha, hb]
  -- From the end on, the second of the two planes comes first.
  have hhigh : (p.adds.reverse.findSome? fun plane => NibblePlane.get? plane i) =
      ((tree.getByteArray? Field.addBlocks2).bind fun plane => NibblePlane.get? plane i).or
        ((tree.getByteArray? Field.addBlocks).bind fun plane => NibblePlane.get? plane i) := by
    rw [hadds, ← List.head?_filterMap, ← List.filterMap_reverse, List.filterMap_filterMap,
      List.head?_filterMap]
    exact hpair _ Field.addBlocks2 Field.addBlocks
  have hbits : ((p.adds.reverse.findSome? fun plane => NibblePlane.get? plane i).getD 0).toNat =
      ((tree.nibbleAt? Field.addBlocks2 i).or (tree.nibbleAt? Field.addBlocks i)).getD 0 := by
    rw [hhigh, ← map_toNat_get?, ← map_toNat_get?, ← Option.map_or]
    exact (Option.getD_map UInt8.toNat 0 _).symm
  rw [Planes.toNat_blockId, hlow, hbits, Compound.statedId]

theorem toNat_dataValue_of_planesOf {p : Planes} (h : planesOf tree volume = .ok p) (i : Nat) :
    (p.dataValue i).toNat = tree.statedData i := by
  rcases of_planesOf h with ⟨-, ⟨hdata, -⟩, hextra, -⟩
  have hlow : (p.data[i]?.getD 0).toNat = tree.byteAt Field.data i := by
    rw [Compound.byteAt, hdata, Option.bind_some]
  rw [Planes.toNat_dataValue, hlow, hextra, Compound.statedData]
  cases hfirst : tree.getByteArray? Field.extraData with
  | some plane => simp [Compound.byteAt, hfirst]
  | none => simp [Compound.byteAt]

end Decoded

/-! ## Records -/

namespace Compound

/-- Where a record puts its tile entity. A coordinate that is no int counts as zero. -/
def statedPlace (record : Compound) : BlockPos :=
  ⟨(record.getInt? "x").getD 0, (record.getInt? "y").getD 0, (record.getInt? "z").getD 0⟩

/-- Whether the field of a key stays when a record is stripped. -/
def keeps (record : Compound) (key : String) : Bool :=
  key ≠ "x" && key ≠ "y" && key ≠ "z" && !(key = "id" && record.getString? "id" = some "")

/-- A record without coordinates, and without a name that is empty. -/
def stripped (record : Compound) : Compound :=
  ⟨record.entries.filter fun entry => record.keeps entry.1⟩

theorem anchor_snd_eq_stripped {record : Compound} (h : record.Distinct) :
    (Decoded.anchor record).2 = record.stripped := by
  have hown : (((record.erase "x").erase "y").erase "z").Distinct :=
    ((h.erase "x").erase "y").erase "z"
  have hname : Compound.getString? (((record.erase "x").erase "y").erase "z") "id" =
      record.getString? "id" := by
    rw [getString?, getAs?, OrderedMap.get?_erase_of_ne (by decide),
      OrderedMap.get?_erase_of_ne (by decide), OrderedMap.get?_erase_of_ne (by decide)]
    rfl
  have hentries : (((record.erase "x").erase "y").erase "z").entries =
      record.entries.filter fun entry => entry.1 ≠ "x" && entry.1 ≠ "y" && entry.1 ≠ "z" := by
    rw [OrderedMap.entries_erase_eq_filter ((h.erase "x").erase "y"),
      OrderedMap.entries_erase_eq_filter (h.erase "x"), OrderedMap.entries_erase_eq_filter h,
      List.filter_filter, List.filter_filter]
    exact List.filter_congr fun entry _ => by grind
  have hkept : ∀ {fields : Compound}, fields.entries = record.stripped.entries →
      fields = record.stripped := fun {fields} h => congrArg OrderedMap.mk h
  apply hkept
  simp only [Decoded.anchor, hname, beq_iff_eq]
  split
  · next hempty =>
      rw [OrderedMap.entries_erase_eq_filter hown, hentries, List.filter_filter, stripped]
      refine List.filter_congr fun entry _ => ?_
      grind [keeps]
  · next hnamed =>
      rw [hentries, stripped]
      exact List.filter_congr fun entry _ => by simp [keeps, hnamed]

end Compound

/-- The last of the records at a place. -/
def lastAt? (records : List Compound) (place : BlockPos) : Option Compound :=
  (records.filter fun record => record.statedPlace == place).getLast?

/-- A record that no later one has the place of is the last one there. -/
theorem lastAt?_of_not_superseded {before after : List Compound} {record : Compound}
    (h : ∀ later ∈ after, later.statedPlace ≠ record.statedPlace) :
    lastAt? (before ++ record :: after) record.statedPlace = some record := by
  have hafter : (after.filter fun later => later.statedPlace == record.statedPlace) = [] :=
    List.filter_eq_nil_iff.2 fun later hlater => by simpa using h later hlater
  rw [lastAt?, List.filter_append, List.filter_cons, if_pos (beq_self_eq_true _), hafter,
    List.getLast?_concat]

/-- The tree that a cell gets from a record. Without numbers of items, nothing is translated. -/
def Conversion.treeOf (conversion : Conversion) (record : Compound) : Compound :=
  if conversion.hasItems then record.stripped.convertIds conversion else record.stripped

theorem Decoded.getElem?_anchoredTrees_eq_lastAt? (conversion : Conversion)
    {records : List Compound} (distinct : ∀ record ∈ records, record.Distinct) (place : BlockPos) :
    (anchoredTrees conversion records)[place]? =
      (lastAt? records place).map conversion.treeOf := by
  rw [getElem?_anchoredTrees_eq, lastAt?, List.getLast?_filter]
  change (records.reverse.find? fun record => record.statedPlace == place).map _ = _
  refine Option.map_congr fun record hrecord => ?_
  have hmem := List.mem_reverse.1 (List.mem_of_find?_eq_some hrecord)
  rw [Compound.anchor_snd_eq_stripped (distinct record hmem)]
  rfl

/-! ## Cells -/

/-- What the fields of a file say of the cell of a number, whose place is given. -/
structure StatedCell (fields : Compound) (records : List Compound) (conversion : Conversion)
    (place : BlockPos) (i : Nat) (cell : Cell) : Prop where
  id : ∃ stored : UInt16, stored.toNat = fields.statedId i ∧ cell.id = conversion.block stored
  data : cell.data.toNat = fields.statedData i
  tree : cell.tree = (lastAt? records place).map conversion.treeOf

/-- What the fields of a file say of the cells of a clipboard, and what becomes of the records. -/
structure Clipboard.StatedBy (s : Clipboard) (fields : Compound) (records : List Compound)
    (conversion : Conversion) : Prop where
  width : s.region.width.toNat = fields.statedSide Field.width
  height : s.region.height.toNat = fields.statedSide Field.height
  length : s.region.length.toNat = fields.statedSide Field.length
  volume : s.cells.size = fields.statedVolume
  planes : ∀ key ∈ [Field.blocks, Field.data], ∃ bytes,
    fields.getByteArray? key = some bytes ∧ bytes.size = s.cells.size
  cells : ∀ i (hi : i < s.cells.size),
    StatedCell fields records conversion (s.region.relativePosition i) i s.cells[i]
  /-- A record is superseded, or it is outside, or exactly one cell has it. -/
  records : ∀ before record after, records = before ++ record :: after →
    (∃ later ∈ after, later.statedPlace = record.statedPlace) ∨
    ({ s.region with min := .zero } : Region).contains record.statedPlace = false ∨
    ∃! i, ∃ hi : i < s.cells.size, s.region.relativePosition i = record.statedPlace ∧
      s.cells[i].tree = some (conversion.treeOf record)

namespace Decoded

variable {tree : Compound} {listed : TagList} {r : Registry} {d : Decoded}

/-- The conversion comes from the mapping sections, whatever has been said before. -/
theorem exists_table_of_ofFile {said said' : Array Notice}
    (h : ofFile r ⟨rootName, .compound tree⟩ said = .ok d said') :
    ∃ table, Yields (RemapTable.ofSections (tree.getCompound? Field.blockMapping)
        (tree.getCompound? Field.itemMapping)) table ∧
      Yields (table.conversion r : Telling FormatError Conversion) d.conversion := by
  unfold ofFile at h
  simp only [Outcome.bind_eq_ok_iff, ofExcept_eq_ok_iff, Outcome.pure_apply,
    EStateM.Result.ok.injEq] at h
  rcases h with ⟨found, _, ⟨hroot, -⟩, _, _, -, _, _, -, _, _, -, table, _, htable, conversion, _,
    hconversion, _, _, -, rfl, -⟩
  have hsame := of_root hroot
  cases hsame
  exact ⟨table, (RemapTable.stopsAt_ofSections _ _).yields_of_ok htable,
    (RemapTable.stopsAt_conversion table r).yields_of_ok hconversion⟩

theorem Says.statedCell (h : d.Says tree listed)
    (distinct : ∀ record ∈ listed.compounds, record.Distinct) (i : Nat) :
    StatedCell tree listed.compounds d.conversion (d.region.relativePosition i) i (d.cell i) where
  id := ⟨d.planes.blockId i, toNat_blockId_of_planesOf h.planes i, d.blockId_eq i⟩
  data := toNat_dataValue_of_planesOf h.planes i
  tree := by
    rw [cell, h.anchored]
    exact getElem?_anchoredTrees_eq_lastAt? d.conversion distinct _

theorem Says.statedBy (h : d.Says tree listed)
    (distinct : ∀ record ∈ listed.compounds, record.Distinct) :
    d.toClipboard.StatedBy tree listed.compounds d.conversion := by
  have hvolume : d.toClipboard.cells.size = d.region.volume := d.toClipboard.size_cells
  have hcells : ∀ i (hi : i < d.toClipboard.cells.size), StatedCell tree listed.compounds d.conversion
      (d.region.relativePosition i) i d.toClipboard.cells[i] := by
    intro i hi
    have hcell : d.toClipboard.cells[i] = d.cell i := by simp [toClipboard]
    rw [hcell]
    exact h.statedCell distinct i
  rcases sides_extent h.extent with ⟨hwidth, hheight, hlength⟩
  rcases of_planesOf h.planes with ⟨⟨hblocks, hblocksSize⟩, ⟨hdata, hdataSize⟩, -⟩
  refine ⟨hwidth, hheight, hlength, hvolume.trans (volume_extent h.extent), ?planes, hcells,
    ?records⟩
  case planes =>
    simp only [List.forall_mem_cons, List.not_mem_nil, IsEmpty.forall_iff, implies_true, and_true]
    exact ⟨⟨_, hblocks, hblocksSize.trans hvolume.symm⟩, ⟨_, hdata, hdataSize.trans hvolume.symm⟩⟩
  case records =>
    intro before record after hsplit
    by_cases hlater : ∃ later ∈ after, later.statedPlace = record.statedPlace
    · exact .inl hlater
    · cases hin : ({ d.region with min := .zero } : Region).contains record.statedPlace with
      | false => exact .inr (.inl hin)
      | true =>
          push Not at hlater
          rcases (Region.contains_zero_iff h.small.spanned).1 hin with ⟨i, hi, hplace⟩
          have hlast : lastAt? listed.compounds record.statedPlace = some record := by
            rw [hsplit]
            exact lastAt?_of_not_superseded hlater
          refine .inr (.inr ⟨i, ⟨hvolume ▸ hi, hplace, ?_⟩, ?_⟩)
          · rw [(hcells i (hvolume ▸ hi)).tree, hplace, hlast, Option.map_some]
          · rintro j ⟨hj, hother, -⟩
            exact Region.relativePosition_inj h.small.spanned (hvolume ▸ hj) hi (hother.trans hplace.symm)

end Decoded

/-- A clipboard that was read is what the file says, in all its cells and for all its records. -/
theorem TagFile.readClipboard_stated {r : Registry} {file : TagFile} {s : Clipboard}
    {said said' : Array Notice} (built : file.root.Built)
    (read : file.readClipboard r said = .ok s said') :
    ∃ fields : Compound, ∃ listed table conversion, file.root = .compound fields ∧
      fields.getList? Field.tileEntities = some listed ∧
      Yields (RemapTable.ofSections (fields.getCompound? Field.blockMapping)
        (fields.getCompound? Field.itemMapping)) table ∧
      Yields (table.conversion r : Telling FormatError Conversion) conversion ∧
      s.StatedBy fields listed.compounds conversion := by
  rcases of_readClipboard read with ⟨d, mid, fields, listed, hread, rfl, hsays, rfl⟩
  rcases Decoded.exists_table_of_ofFile hread with ⟨table, htable, hconversion⟩
  have hlisted : Compound.getList? fields Field.tileEntities = some listed := by
    rw [Compound.getList?, Compound.getAs?, hsays.listed]
    rfl
  have hall := (Tag.regular_compound_iff.1 built.regular).2
  have hregular : Tag.Regular (.list listed) := hall _ (OrderedMap.mem_of_get? hsays.listed)
  exact ⟨fields, listed, table, d.conversion, rfl, hlisted, htable, hconversion,
    hsays.statedBy (Tag.distinct_of_mem_compounds hregular)⟩

/-- A registry in which stone has another number than in the file. -/
def renumberedRegistry : Registry := { blocks := IdTable.empty.pair "stone" 7 }

/-- Three records: two at the first cell, of which the later has no name, and one outside. -/
def crowdedRecords : List Compound :=
  [⟨[("id", .string "Chest"), ("x", .int 0)]⟩,
    ⟨[("x", .byte 2), ("id", .string ""), ("Lock", .string "key")]⟩,
    ⟨[("id", .string "Sign"), ("x", .int 3)]⟩]

/-- Three cells with planes that reach one, two or all of them. -/
def crowdedFile : TagFile where
  name := Schematic.rootName
  root := .compound ⟨[("Width", .short 3), ("Height", .short 1), ("Length", .short 1),
    ("Materials", .string "Alpha"), ("Blocks", .byteArray #[1, 2, 3]),
    ("Data", .byteArray #[0, 0, 5]), ("AddData", .byteArray #[9]),
    ("AddBlocks", .byteArray #[0x21, 0x03]), ("AddBlocks2", .byteArray #[0x54]),
    ("BlockMapping", .compound ⟨[("stone", .short 1025)]⟩),
    ("TileEntities", .list (TagList.ofCompounds crowdedRecords))]⟩

theorem built_crowdedFile : crowdedFile.root.Built := by
  apply Tag.built_iff_regular.2
  constructor
  · simp [crowdedFile, crowdedRecords, Tag.Everywhere, Tag.nodes, Tag.nodesOfFields,
      Tag.nodesOfItems, TagList.ofCompounds, Tag.UniformNode, TagList.Uniform, Tag.kind]
  · simp [crowdedFile, crowdedRecords, Tag.Everywhere, Tag.nodes, Tag.nodesOfFields,
      Tag.nodesOfItems, TagList.ofCompounds, Tag.DistinctNode, OrderedMap.Distinct, OrderedMap.keys]

def crowdedConversion : Conversion := { blocks := (∅ : Std.TreeMap UInt16 UInt16).insert 1025 7 }

def crowdedDecoded : Decoded where
  region := ⟨.zero, 3, 1, 1⟩
  origin := .zero
  planes := { blocks := #[1, 2, 3], data := #[0, 0, 5], extra := some #[9],
              adds := [#[0x21, 0x03], #[0x54]] }
  conversion := crowdedConversion
  anchored := Decoded.anchoredTrees crowdedConversion crowdedRecords
  entities := []

theorem silently_ofFile_crowdedFile :
    Silently (Decoded.ofFile renumberedRegistry crowdedFile) crowdedDecoded := fun _ => rfl

/-- The cell in which a name, a nibble, a high byte and two records meet. -/
theorem readClipboard_stated_crowdedFile :
    ∃ s said', crowdedFile.readClipboard renumberedRegistry #[] = .ok s said' ∧
      ∃ hi : 0 < s.cells.size, s.cells[0].id = 7 ∧ s.cells[0].data = 2304 ∧
        s.cells[0].tree = some ⟨[("Lock", .string "key")]⟩ := by
  have hyields := TagFile.yields_readClipboard silently_ofFile_crowdedFile.yields (by decide)
  rcases hyields #[] with ⟨said', hread⟩
  rcases TagFile.readClipboard_stated built_crowdedFile hread with
    ⟨fields, listed, table, conversion, hroot, hlisted, htable, hconversion, hstated⟩
  cases hroot
  cases hlisted
  have hnamed : table = ⟨IdTable.empty.pair "stone" 1025, .empty⟩ := by
    rcases htable #[] with ⟨mid, hrun⟩
    cases hrun
    rfl
  subst hnamed
  have hsame : conversion = crowdedConversion := by
    rcases hconversion #[] with ⟨mid, hrun⟩
    cases hrun
    rfl
  subst hsame
  have hpos : 0 < crowdedDecoded.toClipboard.cells.size := by decide
  rcases hstated.cells 0 hpos with ⟨⟨stored, hstored, hid⟩, hdata, htree⟩
  have hnumber : stored = 1025 := UInt16.toNat_inj.1 (hstored.trans (by decide))
  refine ⟨_, said', hread, hpos, ?_, UInt16.toNat_inj.1 (hdata.trans (by decide)), ?_⟩
  · rw [hid, hnumber]
    rfl
  · rw [htree]
    rfl

end VoxelSchematic
