import VoxelSchematic.Proofs.Schematic.Accepted
import VoxelSchematic.Proofs.Schematic.Mapping

/-!
# The shortcuts of a reader

A reader asks the block conversion about a cell only if that conversion has entries, and puts a tree
through a conversion only if the item conversion has some. `Decoded.unguarded` is the clipboard
without these questions.

The first shortcut changes nothing. The second keeps a door's block from being translated in a
schematic without known items: `TagFile.readClipboard_unguarded` says what the trees are really put
through, and when it makes no difference.
-/

namespace VoxelSchematic

open Schematic Telling IdField

/-- What trees are really put through: without items, nothing. -/
def Conversion.forTrees (c : Conversion) : Conversion := if c.hasItems then c else {}

/-- A cell with its tree put through a conversion. -/
def Cell.converted (conversion : Conversion) (cell : Cell) : Cell :=
  { cell with tree := cell.tree.map fun tree => tree.convertIds conversion }

namespace Decoded

/-- The tile entities by position, each one put through a conversion. -/
def convertedTrees (conversion : Conversion) (records : List Compound) :
    Std.HashMap BlockPos Compound :=
  records.foldl
    (fun trees record =>
      let (place, tree) := anchor record
      trees.insert place (tree.convertIds conversion))
    ∅

/-- The clipboard of a reader that puts every block number and every tree through a conversion. -/
def unguarded (d : Decoded) (forTrees : Conversion) (records : List Compound) : Clipboard where
  region := d.region
  origin := d.origin
  cells := Array.ofFn fun (i : Fin d.region.volume) => {
    id := d.conversion.block (d.planes.blockId i)
    data := d.planes.dataValue i
    tree := (convertedTrees forTrees records)[d.region.relativePosition i]? }
  entities := d.entities.toArray
  size_cells := Array.size_ofFn

variable {conversion : Conversion} {records : List Compound} {d : Decoded}

theorem translated_eq (conversion : Conversion) (tree : Compound) :
    translated conversion tree = tree.convertIds conversion.forTrees := by
  unfold translated Conversion.forTrees
  by_cases hitems : conversion.hasItems = true
  · rw [if_pos hitems, if_pos hitems]
  · rw [if_neg hitems, if_neg hitems, Compound.convertIds_empty]

theorem anchoredTrees_eq_convertedTrees (conversion : Conversion) (records : List Compound) :
    anchoredTrees conversion records = convertedTrees conversion.forTrees records := by
  simp only [anchoredTrees, convertedTrees, translated_eq]

/-- A tree is put through the conversion at its place. -/
theorem getElem?_convertedTrees (conversion : Conversion) (records : List Compound)
    (place : BlockPos) :
    (convertedTrees conversion records)[place]? =
      ((convertedTrees {} records)[place]?).map fun tree => tree.convertIds conversion := by
  have hlast : ∀ conversion : Conversion, (convertedTrees conversion records)[place]? =
      (records.reverse.find? fun record => (anchor record).1 == place).map fun record =>
        (anchor record).2.convertIds conversion :=
    fun conversion => getElem?_foldl_insert_anchor (fun tree => tree.convertIds conversion) records place
  rw [hlast, hlast, Option.map_map]
  simp only [Function.comp_def, Compound.convertIds_empty]

theorem toClipboard_eq_unguarded (anchored : d.anchored = anchoredTrees d.conversion records) :
    d.toClipboard = d.unguarded d.conversion.forTrees records := by
  simp only [toClipboard, unguarded, cell, blockId_eq, anchored, anchoredTrees_eq_convertedTrees]

/-- Putting the trees through a conversion as well is putting the cells through it afterwards. -/
theorem unguarded_eq_map (d : Decoded) (conversion : Conversion) (records : List Compound) :
    d.unguarded conversion records = (d.unguarded {} records).map (Cell.converted conversion) := by
  simp [unguarded, Clipboard.map, Cell.converted, getElem?_convertedTrees conversion,
    Function.comp_def]

end Decoded

/-- What a reader hands out is what it would hand out without shortcuts, except that without items
the trees are not put through the conversion. -/
theorem TagFile.readClipboard_unguarded {r : Registry} {file : TagFile} {s : Clipboard}
    {said said' : Array Notice} (read : file.readClipboard r said = .ok s said') :
    ∃ d mid tree, ∃ records : TagList, Decoded.ofFile r file said = .ok d mid ∧
      file.root = .compound tree ∧ tree.get? Field.tileEntities = some (.list records) ∧
      s = d.unguarded d.conversion.forTrees records.compounds ∧
      (s = d.unguarded d.conversion records.compounds ↔
        d.conversion.hasItems = true ∨ ∀ cell ∈ s.cells, cell.converted d.conversion = cell) ∧
      ∀ door : Compound, isDoor door = true → itemKey? door = none →
        (door.convertIds d.conversion.forTrees).getInt? doorBlock =
          (door.getInt? doorBlock).map fun v =>
            if d.conversion.hasItems then withLowBits v (d.conversion.block (lowBits v)) else v := by
  rcases of_readClipboard read with ⟨d, mid, tree, records, hread, rfl, hsays, rfl⟩
  have hsame := Decoded.toClipboard_eq_unguarded hsays.anchored
  refine ⟨d, mid, tree, records, hread, rfl, hsays.listed, hsame, ?_, fun door hdoor hplain => ?_⟩
  · rw [hsame, Conversion.forTrees, ← Clipboard.map_eq_self_iff]
    by_cases hitems : d.conversion.hasItems = true
    · simp [hitems]
    · -- The trees were left alone, so putting them through the conversion now is what was skipped.
      rw [if_neg hitems, d.unguarded_eq_map d.conversion]
      simp [hitems, eq_comm]
  · rw [Compound.getInt?_convertIds_of_isDoor _ hdoor hplain, Conversion.forTrees]
    by_cases hitems : d.conversion.hasItems = true
    · simp [hitems]
    · have hleave : ∀ id, Conversion.block {} id = id := fun id => rfl
      simp [hitems, hleave, withLowBits_lowBits]

/-- A registry that gives stone the number seven. -/
def stoneRegistry : Registry := { blocks := IdTable.empty.pair "stone" 7 }

/-- A door of stone. -/
def stoneDoor (block : Int32) : Compound :=
  ⟨[("id", .string "customDoorTileEntity"), ("block", .int block)]⟩

/-- A schematic of such a door, with a block mapping and without items. -/
def doorFile : TagFile where
  name := rootName
  root := .compound ⟨[("Width", .short 1), ("Height", .short 1), ("Length", .short 1),
    ("Materials", .string "Alpha"), ("Blocks", .byteArray #[1]), ("Data", .byteArray #[0]),
    ("BlockMapping", .compound ⟨[("stone", .short 1)]⟩),
    ("TileEntities", .list (TagList.ofCompounds [stoneDoor 1]))]⟩

/-- A cell of stone with a door. -/
def doorClipboard (block : Int32) : Clipboard where
  region := ⟨.zero, 1, 1, 1⟩
  origin := .zero
  cells := #[⟨7, 0, some (stoneDoor block)⟩]
  size_cells := rfl

/-- The conversion into the registry. -/
def doorConversion : Conversion := { blocks := (∅ : Std.TreeMap UInt16 UInt16).insert 1 7 }

/-- What the schematic of the door says. -/
def doorDecoded : Decoded where
  region := ⟨.zero, 1, 1, 1⟩
  origin := .zero
  planes := { blocks := #[1], data := #[0] }
  conversion := doorConversion
  anchored := Decoded.anchoredTrees doorConversion [stoneDoor 1]
  entities := []

theorem silently_ofFile_doorFile : Silently (Decoded.ofFile stoneRegistry doorFile) doorDecoded :=
  fun _ => rfl

theorem yields_readClipboard_doorFile :
    Yields (doorFile.readClipboard stoneRegistry) (doorClipboard 1) := by
  have htree : (Decoded.anchoredTrees doorConversion [stoneDoor 1])[BlockPos.zero]? =
      some (stoneDoor 1) := by
    rw [Decoded.getElem?_anchoredTrees_eq]
    rfl
  exact TagFile.yields_readClipboard_single silently_ofFile_doorFile.yields (by decide) rfl rfl rfl
    rfl rfl (congrArg (Cell.mk 7 0) htree)

/-- Without shortcuts, the block of the door is translated. -/
theorem unguarded_doorDecoded :
    doorDecoded.unguarded doorConversion [stoneDoor 1] = doorClipboard 7 := by
  have htree : (Decoded.convertedTrees doorConversion [stoneDoor 1])[BlockPos.zero]? =
      some (stoneDoor 7) := by
    unfold Decoded.convertedTrees
    rw [Decoded.getElem?_foldl_insert_anchor fun tree => tree.convertIds doorConversion]
    rfl
  have hcells : (doorDecoded.unguarded doorConversion [stoneDoor 1]).cells =
      #[⟨7, 0, some (stoneDoor 7)⟩] :=
    congrArg (fun tree => #[Cell.mk 7 0 tree]) htree
  exact (Clipboard.mk.injEq ..).mpr ⟨rfl, rfl, hcells, rfl⟩

theorem readClipboard_unguarded_doorFile :
    ∃ tree, ∃ records : TagList, doorFile.root = .compound tree ∧
      tree.get? Field.tileEntities = some (.list records) ∧
      doorClipboard 1 = doorDecoded.unguarded doorConversion.forTrees records.compounds ∧
      ((stoneDoor 1).convertIds doorConversion.forTrees).getInt? doorBlock = some 1 := by
  rcases yields_readClipboard_doorFile #[] with ⟨said', hread⟩
  rcases TagFile.readClipboard_unguarded hread with
    ⟨d, mid, tree, records, hdecoded, hroot, hlisted, hsame, -, hdoors⟩
  have hd : d = doorDecoded := silently_ofFile_doorFile.yields.eq_of_ok hdecoded
  subst hd
  exact ⟨tree, records, hroot, hlisted, hsame, hdoors (stoneDoor 1) rfl rfl⟩

/-- The door was read with the block of the schematic, and not with that of the registry. -/
theorem doorFile_block_untranslated :
    Silently (Decoded.ofFile stoneRegistry doorFile) doorDecoded ∧
      Yields (doorFile.readClipboard stoneRegistry) (doorClipboard 1) ∧
      doorDecoded.unguarded doorDecoded.conversion [stoneDoor 1] = doorClipboard 7 ∧
      (doorClipboard 1).same (doorClipboard 7) = false ∧
      doorDecoded.conversion.block 1 = 7 ∧ isDoor (stoneDoor 1) = true ∧
      ((doorClipboard 1).cells[0]?.bind Cell.tree) = some (stoneDoor 1) :=
  ⟨silently_ofFile_doorFile, yields_readClipboard_doorFile, unguarded_doorDecoded, by cbv, rfl, rfl,
    rfl⟩

end VoxelSchematic
