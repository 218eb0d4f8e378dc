import VoxelSchematic.Proofs.Schematic.Remapping

/-!
# The names that are written

Which names stand in the two mapping sections of a schematic that is written of a clipboard.

* `Clipboard.Uses` says which numbers a schematic needs names for: those of the cells, and those in
  the records of the tile entities.
* `Decoded.Seeks` says which numbers a reader of a schematic translates. Records lose their places
  before that, and still `seeks_decoded_iff` says that these are the same numbers.
* `Clipboard.toFile_names`: a section has the names of the numbers of its kind, each once and by
  ascending name, and nothing else.
-/

namespace VoxelSchematic

open Schematic Telling

/-- The field of the section for numbers of one kind. -/
def IdKind.sectionField : IdKind → String
  | .block => Field.blockMapping
  | .item => Field.itemMapping

/-- The section has the names of the used numbers, each once and by ascending name, with the number
as a short, and nothing else. -/
def Compound.Names (section_ : Compound) (naming : UInt16 → Option String) (used : UInt16 → Prop) :
    Prop :=
  ∃ pairs : List (String × UInt16),
    section_.entries = pairs.map (fun entry => (entry.1, .short entry.2.toInt16)) ∧
    (pairs.Pairwise fun a b => a.1 < b.1) ∧
    ∀ name id, (name, id) ∈ pairs ↔ naming id = some name ∧ used id

/-- A number that a reader translates: that of a cell, or one in a tile entity that has lost its
place. -/
inductive Decoded.Seeks (d : Decoded) (records : List Compound) : IdKind → UInt16 → Prop
  | cell {i : Nat} : i < d.region.volume → Seeks d records .block (d.planes.blockId i)
  | tree {record : Compound} {kind : IdKind} {id : UInt16} : record ∈ records →
      (kind, id) ∈ (Decoded.anchor record).2.heldIds → Seeks d records kind id

/-! ## Sections of a table -/

section

variable {naming : UInt16 → Option String} {used : UInt16 → Prop} {section_ : Compound}

theorem RemapTable.names_toSection {table : IdTable} (h : table.Names naming used) :
    Compound.Names (RemapTable.toSection table) naming used :=
  ⟨table.pairs, RemapTable.toSection_entries table, table.sorted_pairs, fun _ _ => h.mem_pairs_iff⟩

/-- The name of a used number has its entry. -/
theorem Compound.Names.getShort?_eq (h : Compound.Names section_ naming used) {name : String}
    {id : UInt16} (named : naming id = some name) (hused : used id) :
    section_.getShort? name = some id.toInt16 := by
  rcases h with ⟨pairs, hentries, hsorted, hmem⟩
  have hdistinct : section_.Distinct := by
    rw [OrderedMap.Distinct, OrderedMap.keys, hentries, List.map_map]
    exact List.pairwise_map.2 (hsorted.imp ne_of_lt)
  have hentry : (name, Tag.short id.toInt16) ∈ section_.entries := by
    rw [hentries]
    exact List.mem_map.2 ⟨(name, id), (hmem name id).2 ⟨named, hused⟩, rfl⟩
  rw [Compound.getShort?, Compound.getAs?, OrderedMap.get?_of_mem hdistinct hentry]
  rfl

end

namespace Clipboard

variable {w r : Registry} {c : Clipboard} {kind : IdKind} {id : UInt16}

/-- A number that a schematic has a name for, if there is one: that of a cell, of which twelve bits
are kept, or one in the record of a tile entity. -/
inductive Uses (c : Clipboard) : IdKind → UInt16 → Prop
  | cell {cell : Cell} : cell ∈ c.cells → Uses c .block (cell.id &&& maxBlockId)
  | record {record : Compound} {kind : IdKind} {id : UInt16} : record ∈ c.tileEntityRecords →
      (kind, id) ∈ record.heldIds → Uses c kind id

theorem mem_placedTrees_of_tree {cell : Cell} {tree : Compound} (hcell : cell ∈ c.cells)
    (htree : cell.tree = some tree) : ∃ place, (place, tree) ∈ c.placedTrees := by
  rcases Array.mem_iff_getElem.1 hcell with ⟨i, hi, rfl⟩
  refine ⟨c.region.relativePosition i, List.mem_filterMap.2 ⟨(c.cells[i], i), ?_, ?_⟩⟩
  · rw [List.mk_mem_zipIdx_iff_getElem?, Array.getElem?_toList]
    exact Array.getElem?_eq_getElem hi
  · exact congrArg (Option.map _) htree

/-- A record is that of the tree of some cell. -/
theorem exists_cell_of_mem_records {record : Compound} (h : record ∈ c.tileEntityRecords) :
    ∃ place, ∃ cell ∈ c.cells, ∃ tree, cell.tree = some tree ∧
      record = tileEntityRecord place tree := by
  rw [tileEntityRecords_eq] at h
  rcases List.mem_map.1 h with ⟨⟨place, tree⟩, hplaced, rfl⟩
  rcases exists_cell_of_mem_placedTrees hplaced with ⟨cell, hcell, htree⟩
  exact ⟨place, cell, hcell, tree, htree, rfl⟩

theorem uses_iff (distinct : c.Distinct) : c.Uses kind id ↔ (kind, id) ∈ c.namedIds := by
  constructor
  · intro h
    cases h with
    | cell hcell => exact mem_namedIds_of_cell hcell List.mem_cons_self
    | record hrecord hheld =>
        rcases exists_cell_of_mem_records hrecord with ⟨place, cell, hcell, tree, htree, rfl⟩
        rw [heldIds_tileEntityRecord place (distinct.cells cell hcell tree htree)] at hheld
        exact mem_namedIds_of_cell hcell (by simp [Cell.namedIds, htree, hheld])
  · intro h
    rcases List.mem_flatMap.1 h with ⟨cell, hcell, hheld⟩
    rw [Array.mem_toList_iff] at hcell
    rcases List.mem_cons.1 hheld with hblock | hinner
    · cases hblock
      exact .cell hcell
    · cases htree : cell.tree with
      | none => simp [htree] at hinner
      | some tree =>
          rw [htree, Option.map_some, Option.getD_some] at hinner
          rcases mem_placedTrees_of_tree hcell htree with ⟨place, hplaced⟩
          rw [← heldIds_tileEntityRecord place (distinct.cells cell hcell tree htree)] at hinner
          refine .record ?_ hinner
          rw [tileEntityRecords_eq]
          exact List.mem_map.2 ⟨_, hplaced, rfl⟩

/-- A reader translates the numbers that have been named, and no others. -/
theorem seeks_decoded_iff (conversion : Conversion) (distinct : c.Distinct) :
    (c.decoded conversion).Seeks c.tileEntityRecords kind id ↔ c.Uses kind id := by
  have hheld : ∀ record ∈ c.tileEntityRecords, (Decoded.anchor record).2.heldIds = record.heldIds := by
    intro record hrecord
    rcases exists_cell_of_mem_records hrecord with ⟨place, cell, hcell, tree, htree, rfl⟩
    rw [anchor_tileEntityRecord, heldIds_tileEntityRecord place (distinct.cells cell hcell tree htree)]
  constructor
  · intro h
    cases h with
    | cell hi =>
        have hsize := hi
        change _ < c.region.volume at hsize
        rw [← c.size_cells] at hsize
        change c.Uses .block (c.planes.blockId _)
        rw [blockId_planes hsize]
        exact .cell (Array.getElem_mem hsize)
    | tree hrecord hids =>
        rw [hheld _ hrecord] at hids
        exact .record hrecord hids
  · intro h
    cases h with
    | cell hcell =>
        rcases Array.mem_iff_getElem.1 hcell with ⟨i, hi, rfl⟩
        have hvolume : i < (c.decoded conversion).region.volume := by
          change i < c.region.volume
          rw [← c.size_cells]
          exact hi
        have hstored : (c.decoded conversion).planes.blockId i = c.cells[i].storedId :=
          blockId_planes hi
        have hseeks : (c.decoded conversion).Seeks c.tileEntityRecords .block _ := .cell hvolume
        rw [hstored] at hseeks
        exact hseeks
    | record hrecord hids =>
        rw [← hheld _ hrecord] at hids
        exact .tree hrecord hids

/-- The sections of a written schematic have the names of the numbers in it and no others, however
often these come. No name is displaced, and the log only hears which items have none. Whatever a
reader of the schematic translates has its entry, if it has a name at all. -/
theorem toFile_names (hw : w.Built) (small : c.region.Small) (distinct : c.Distinct) :
    ∃ tree : Compound,
      Logs (c.toFile w) ⟨rootName, .compound tree⟩ (unnamedLogs w c.namedIds) ∧
      tree.get? Field.tileEntities = some (.list (TagList.ofCompounds c.tileEntityRecords)) ∧
      (∀ kind : IdKind, ∃ section_ : Compound,
        tree.get? kind.sectionField = some (.compound section_) ∧
        Compound.Names section_ (w.name? kind) (c.Uses kind)) ∧
      ∀ r : Registry, ∃ d, Yields (Decoded.ofFile r ⟨rootName, .compound tree⟩) d ∧
        ∀ (kind : IdKind) (id : UInt16), (d.Seeks c.tileEntityRecords kind id ↔ c.Uses kind id) ∧
          ∀ name, d.Seeks c.tileEntityRecords kind id → w.name? kind id = some name →
            (tree.getCompound? kind.sectionField).bind (·.getShort? name) = some id.toInt16 := by
  rcases logs_toFile distinct hw small with ⟨t, hlogs, hrecords⟩
  have hsection : ∀ kind : IdKind, (c.fields t).get? kind.sectionField =
      some (.compound (RemapTable.toSection (t.side kind))) := by
    refine fun kind => get?_fields ?_
    cases kind <;> simp [fieldList, IdKind.sectionField, RemapTable.toSections, RemapTable.side]
  have hnames : ∀ kind, Compound.Names (RemapTable.toSection (t.side kind)) (w.name? kind)
      (c.Uses kind) := fun kind =>
    RemapTable.names_toSection ((hrecords kind).congr fun id => (uses_iff distinct).symm)
  refine ⟨c.fields t, hlogs, get?_fields (by simp [fieldList]),
    fun kind => ⟨_, hsection kind, hnames kind⟩, fun r => ?_⟩
  rcases yields_ofFile r distinct hw small hrecords with ⟨conversion, hread, -⟩
  refine ⟨_, hread, fun kind id => ?_⟩
  have hseen : (c.decoded conversion).Seeks c.tileEntityRecords kind id ↔ c.Uses kind id :=
    seeks_decoded_iff conversion distinct
  refine ⟨hseen, fun name hseeks hname => ?_⟩
  rw [Compound.getCompound?, Compound.getAs?, hsection kind]
  exact (hnames kind).getShort?_eq hname (hseen.1 hseeks)

/-- A registry with a block, and an item whose number is as high as can be. -/
def appleRegistry : Registry :=
  { blocks := IdTable.empty.pair "stone" 1, items := IdTable.empty.pair "apple" 0xFFFF }

theorem built_appleRegistry : appleRegistry.Built :=
  @Registry.Built.withItem _ _ "apple" 0xFFFF
    (@Registry.Built.withBlock _ _ "stone" 1 .empty rfl) rfl

/-- Two stones, one of them under a number with too many bits, and one with an apple in it. -/
def appleClipboard : Clipboard where
  region := ⟨.zero, 2, 1, 1⟩
  origin := .zero
  cells := #[⟨0x5001, 0, none⟩, ⟨1, 0, some ⟨[("Slot", .compound ⟨[("id", .short (-1)),
    ("Count", .byte 1), ("Damage", .short 0)]⟩)]⟩⟩]
  size_cells := rfl

theorem toFile_names_appleClipboard :
    ∃ tree blocks items : Compound,
      Yields (appleClipboard.toFile appleRegistry) ⟨rootName, .compound tree⟩ ∧
      tree.get? Field.blockMapping = some (.compound blocks) ∧
      tree.get? Field.itemMapping = some (.compound items) ∧
      blocks.getShort? "stone" = some 1 ∧ items.getShort? "apple" = some (-1) := by
  have hdistinct : appleClipboard.Distinct := by
    constructor
    · simp [appleClipboard, OrderedMap.Distinct, OrderedMap.keys]
    · simp [appleClipboard]
  have hused : appleClipboard.namedIds = [(.block, 1), (.block, 1), (.item, 0xFFFF)] := by cbv
  rcases toFile_names built_appleRegistry (c := appleClipboard) (by decide) hdistinct with
    ⟨tree, hlogs, -, hsections, -⟩
  rcases hsections .block with ⟨blocks, hblocks, hblockNames⟩
  rcases hsections .item with ⟨items, hitems, hitemNames⟩
  refine ⟨tree, blocks, items, hlogs.yields, hblocks, hitems, ?_, ?_⟩
  · exact hblockNames.getShort?_eq (by cbv) ((uses_iff hdistinct).2 (hused ▸ by simp))
  · exact hitemNames.getShort?_eq (by cbv) ((uses_iff hdistinct).2 (hused ▸ by simp))

end Clipboard

end VoxelSchematic
