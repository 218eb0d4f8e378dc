import VoxelSchematic.Proofs.Schematic.Saving
import VoxelSchematic.Proofs.Tag.Rearranged

/-!
# Remapping twice is remapping once

Reading a schematic and writing it with the same registry brings it into a form that does not
change when this is done again: `TagFile.remap_remap`. Only a tree whose `id` is no text makes the
second file differ from the first, and then in the order of the fields of one record.
-/

namespace VoxelSchematic

open Telling Decoded

/-! ## Records of trees that were saved -/

section

variable {tree : Compound}

theorem nameText_bare (h : tree.Distinct) : (Compound.bare tree).nameText = tree.nameText := by
  rw [Compound.nameText, Compound.getString?, Compound.getAs?, get?_bare_id h]
  by_cases hempty : tree.nameText = ""
  · rw [if_pos hempty, hempty]
    rfl
  · rw [if_neg hempty]
    rfl

/-- The record of a tree answers every look-up as the record of the bare tree does. -/
theorem get?_tileEntityRecord_bare (place : BlockPos) (h : tree.Distinct) (key : String) :
    (tileEntityRecord place (Compound.bare tree)).get? key =
      (tileEntityRecord place tree).get? key := by
  -- A record adds a name and a position to what the tree has of its own.
  cases hkey : isOwnKey key with
  | true =>
      rw [get?_tileEntityRecord_of_isOwnKey place hkey, get?_tileEntityRecord_of_isOwnKey place hkey,
        Compound.bare_bare h]
  | false =>
      rcases get?_tileEntityRecord place (Compound.bare tree) with ⟨hid, hx, hy, hz⟩
      rcases get?_tileEntityRecord place tree with ⟨hid', hx', hy', hz'⟩
      rw [nameText_bare h] at hid
      rcases added_of_not_isOwnKey hkey with rfl | rfl | rfl | rfl
      · exact hid.trans hid'.symm
      · exact hx.trans hx'.symm
      · exact hy.trans hy'.symm
      · exact hz.trans hz'.symm

theorem rearranged_tileEntityRecord_bare (place : BlockPos) (h : tree.Distinct) :
    Tag.Rearranged (.compound (tileEntityRecord place (Compound.bare tree)))
      (.compound (tileEntityRecord place tree)) :=
  .of_get? (distinct_tileEntityRecord (distinct_bare h)) (distinct_tileEntityRecord h)
    (get?_tileEntityRecord_bare place h)

end

namespace Clipboard

variable {c : Clipboard} {r : Registry}

/-- The trees of a clipboard, each with the way to its cell. -/
def placedTrees (c : Clipboard) : List (BlockPos × Compound) :=
  c.cells.toList.zipIdx.filterMap fun (cell, i) =>
    cell.tree.map fun tree => (c.region.relativePosition i, tree)

theorem tileEntityRecords_eq (c : Clipboard) :
    c.tileEntityRecords = c.placedTrees.map fun placed => tileEntityRecord placed.1 placed.2 := by
  simp [tileEntityRecords, placedTrees, List.map_filterMap, Option.map_map, Function.comp_def]

theorem placedTrees_saved (c : Clipboard) :
    c.saved.placedTrees = c.placedTrees.map fun placed => (placed.1, Compound.bare placed.2) := by
  simp [placedTrees, saved, map, Cell.saved, List.zipIdx_map, List.map_filterMap, List.filterMap_map,
    Option.map_map, Function.comp_def]

theorem exists_cell_of_mem_placedTrees {placed : BlockPos × Compound} (h : placed ∈ c.placedTrees) :
    ∃ cell ∈ c.cells, cell.tree = some placed.2 := by
  rcases List.mem_filterMap.1 h with ⟨⟨cell, i⟩, hcell, hmade⟩
  rcases Option.map_eq_some_iff.1 hmade with ⟨tree, htree, rfl⟩
  exact ⟨cell, Array.mem_toList_iff.1 (List.fst_mem_of_mem_zipIdx hcell), htree⟩

theorem rearranged_tileEntityRecords_saved (distinct : c.Distinct) :
    List.Forall₂ (fun a b => Tag.Rearranged (.compound a) (.compound b)) c.saved.tileEntityRecords
      c.tileEntityRecords := by
  rw [tileEntityRecords_eq, tileEntityRecords_eq, placedTrees_saved, List.map_map,
    List.forall₂_map_left_iff, List.forall₂_map_right_iff, List.forall₂_same]
  intro placed hplaced
  rcases exists_cell_of_mem_placedTrees hplaced with ⟨cell, hcell, htree⟩
  exact rearranged_tileEntityRecord_bare placed.1 (distinct.cells cell hcell placed.2 htree)

theorem HandedOut.tileEntityRecords_saved (h : c.HandedOut)
    (texts : ∀ cell ∈ c.cells, ∀ tree, cell.tree = some tree → tree.NamedByText) :
    c.saved.tileEntityRecords = c.tileEntityRecords := by
  rw [tileEntityRecords_eq, tileEntityRecords_eq, placedTrees_saved, List.map_map]
  refine List.map_congr_left fun placed hplaced => ?_
  rcases exists_cell_of_mem_placedTrees hplaced with ⟨cell, hcell, htree⟩
  have hbare : Compound.bare placed.2 = placed.2 :=
    (h.trees cell hcell placed.2 htree).bare_eq_self_iff.2 (texts cell hcell placed.2 htree)
  exact congrArg (tileEntityRecord placed.1) hbare

/-! ## Fields of a clipboard that was saved -/

theorem cells_saved {α : Type} {f : Cell → α} (h : ∀ cell : Cell, f cell.saved = f cell) :
    c.saved.cells.map f = c.cells.map f := by
  simp [saved, map, Function.comp_def, h]

/-- All fields but the records of the tile entities stay as they are. -/
theorem fieldList_saved {t t' : RemapTable} (h : t'.toSections = t.toSections) :
    ∃ before behind,
      c.fieldList t = before ++ (Schematic.Field.tileEntities,
        .list (TagList.ofCompounds c.tileEntityRecords)) :: behind ∧
      c.saved.fieldList t' = before ++ (Schematic.Field.tileEntities,
        .list (TagList.ofCompounds c.saved.tileEntityRecords)) :: behind := by
  refine ⟨_, _, rfl, ?_⟩
  have hlow : c.saved.cells.map (fun cell => cell.storedId.toUInt8) =
      c.cells.map fun cell => cell.storedId.toUInt8 :=
    cells_saved fun cell => congrArg UInt16.toUInt8 cell.storedId_saved
  have hdata : c.saved.cells.map (fun cell => cell.data.toUInt8) =
      c.cells.map fun cell => cell.data.toUInt8 := cells_saved fun cell => rfl
  have hhighData : c.saved.cells.map Cell.highData = c.cells.map Cell.highData :=
    cells_saved fun cell => rfl
  have hhighId : c.saved.cells.map Cell.highId = c.cells.map Cell.highId := by
    refine cells_saved fun cell => ?_
    rw [Cell.highId, Cell.highId, cell.storedId_saved]
  have hregion : c.saved.region = c.region := rfl
  have horigin : c.saved.origin = c.origin := rfl
  have hentities : c.saved.entities = c.entities := rfl
  rw [fieldList, hlow, hdata, hhighData, hhighId, hregion, horigin, hentities, h]

/-- The saved clipboard states the same numbers, so that the same names are recorded. -/
theorem namedIds_saved (distinct : c.Distinct) : c.saved.namedIds = c.namedIds := by
  have hcell : ∀ cell ∈ c.cells.toList, cell.saved.namedIds = cell.namedIds := by
    intro cell hcell
    rw [Cell.namedIds, Cell.namedIds, cell.storedId_saved]
    cases hown : cell.tree with
    | none => simp [Cell.saved, hown]
    | some tree =>
        have hbare := Compound.bare_bare
          (distinct.cells cell (Array.mem_toList_iff.1 hcell) tree hown)
        simp [Cell.saved, hown, hbare]
  have hcells : c.saved.cells.toList = c.cells.toList.map Cell.saved := by simp [saved, map]
  rw [namedIds, namedIds, hcells, List.flatMap_map]
  exact List.flatMap_congr hcell

theorem HandedOut.saved (h : c.HandedOut) : c.saved.HandedOut where
  small := h.small
  trees := by
    intro cell hcell tree htree
    rcases Array.mem_map.1 hcell with ⟨old, hold, rfl⟩
    rcases Option.map_eq_some_iff.1 htree with ⟨own, hown, rfl⟩
    exact Compound.detached_bare (h.trees old hold own hown).distinct
  entities := h.entities
  entityTrees := h.entityTrees

end Clipboard

/-- Reading and writing with one registry, done twice, leaves what doing it once leaves. -/
theorem TagFile.remap_remap {r : Registry} {file : TagFile} {s : Clipboard}
    {said said' : Array Notice} (hr : r.Built) (built : file.root.Built)
    (read : file.readClipboard r said = .ok s said') :
    ∃ file' s' file'', Yields (s.toFile r) file' ∧ Silently (file'.readClipboard r) s' ∧
      Yields (s'.toFile r) file'' ∧ file''.name = file'.name ∧
      Tag.Rearranged file''.root file'.root ∧
      ((∀ cell ∈ s.cells, ∀ tree, cell.tree = some tree → tree.NamedByText) → file'' = file') := by
  have hs := handedOut_of_readClipboard built read
  rcases hs.yields_saved hr with ⟨t, hwritten, hrecords, hback⟩
  rcases hs.saved.yields_saved hr with ⟨t', hrewritten, hrecords', -⟩
  -- The same names are recorded both times, so only the records of the tile entities may differ.
  rw [Clipboard.namedIds_saved hs.distinct] at hrecords'
  rcases s.fieldList_saved (hrecords'.toSections_eq hrecords) with ⟨before, behind, hfirst, hsecond⟩
  refine ⟨_, _, _, hwritten, hback, hrewritten, rfl, ?_, fun texts => ?_⟩
  · have hrecords := Clipboard.rearranged_tileEntityRecords_saved hs.distinct
    rw [Clipboard.fields_mk, Clipboard.fields_mk, hfirst, hsecond]
    exact .field (.ofCompounds hrecords)
  · have hsame : s.saved.fieldList t' = s.fieldList t := by
      rw [hfirst, hsecond, hs.tileEntityRecords_saved texts]
    rw [Clipboard.fields_mk, Clipboard.fields_mk, hsame]

/-- A registry that gives stone a number of more than twelve bits. -/
def highRegistry : Registry := { blocks := IdTable.empty.pair "stone" 0x5001 }

theorem built_highRegistry : highRegistry.Built :=
  @Registry.Built.withBlock _ _ "stone" 0x5001 .empty rfl

/-- A stone whose tree has a byte in the place of a name. -/
def markedClipboard : Clipboard where
  region := ⟨.zero, 1, 1, 1⟩
  origin := .zero
  cells := #[⟨0x5001, 0, some ⟨[("id", .byte 3), ("Lock", .string "")]⟩⟩]
  size_cells := rfl

/-- A schematic of such a stone, under a number of its own. -/
def markedFile : TagFile where
  name := Schematic.rootName
  root := .compound ⟨[("Width", .short 1), ("Height", .short 1), ("Length", .short 1),
    ("Materials", .string "Alpha"), ("Blocks", .byteArray #[1]), ("Data", .byteArray #[0]),
    ("BlockMapping", .compound ⟨[("stone", .short 1)]⟩),
    ("TileEntities", .list (TagList.ofCompounds [⟨[("id", .byte 3), ("Lock", .string "")]⟩]))]⟩

theorem built_markedFile : markedFile.root.Built := by
  apply Tag.built_iff_regular.2
  constructor
  · simp [markedFile, Tag.Everywhere, Tag.nodes, Tag.nodesOfFields, Tag.nodesOfItems,
      TagList.ofCompounds, Tag.UniformNode, TagList.Uniform, Tag.kind]
  · simp [markedFile, Tag.Everywhere, Tag.nodes, Tag.nodesOfFields, Tag.nodesOfItems,
      TagList.ofCompounds, Tag.DistinctNode, OrderedMap.Distinct, OrderedMap.keys]

theorem yields_readClipboard_markedFile :
    Yields (markedFile.readClipboard highRegistry) markedClipboard := by
  let conversion : Conversion := { blocks := (∅ : Std.TreeMap UInt16 UInt16).insert 1 0x5001 }
  let d : Decoded :=
    { region := ⟨.zero, 1, 1, 1⟩, origin := .zero, planes := { blocks := #[1], data := #[0] },
      conversion, entities := [],
      anchored := Decoded.anchoredTrees conversion [⟨[("id", .byte 3), ("Lock", .string "")]⟩] }
  have hread : Silently (Decoded.ofFile highRegistry markedFile) d := fun _ => rfl
  have htree : d.anchored[d.region.relativePosition 0]? =
      some ⟨[("id", .byte 3), ("Lock", .string "")]⟩ :=
    (Decoded.getElem?_anchoredTrees_eq _ _ _).trans (by cbv)
  exact TagFile.yields_readClipboard_single hread.yields (by decide) rfl rfl rfl rfl rfl
    (congrArg (Cell.mk 0x5001 0) htree)

theorem remap_remap_markedFile :
    ∃ file' s' file'', Yields (markedClipboard.toFile highRegistry) file' ∧
      Silently (file'.readClipboard highRegistry) s' ∧ Yields (s'.toFile highRegistry) file'' ∧
      Tag.Rearranged file''.root file'.root := by
  rcases yields_readClipboard_markedFile #[] with ⟨said', hread⟩
  rcases TagFile.remap_remap built_highRegistry built_markedFile hread with
    ⟨file', s', file'', hwritten, hback, hrewritten, -, hrearranged, -⟩
  exact ⟨file', s', file'', hwritten, hback, hrewritten, hrearranged⟩

end VoxelSchematic
