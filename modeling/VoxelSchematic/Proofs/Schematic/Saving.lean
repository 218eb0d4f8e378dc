import VoxelSchematic.Proofs.Schematic.Accepted
import VoxelSchematic.Proofs.Schematic.RoundTrip

/-!
# What was read survives being saved

A clipboard that was read is in normal form but for two things: block numbers that are too high
lose their upper bits when they are written, and a tree whose `id` is no text loses it.
`Clipboard.saved` is what then comes back, and `TagFile.readClipboard_saved` says that this is all
that saving and reloading may change.
-/

namespace VoxelSchematic

open Telling

/-! ## Saved clipboards -/

/-- A tree without what stands in the place of a name and is no text. -/
def Compound.textNamed (tree : Compound) : Compound :=
  if (tree.getString? "id").isSome then tree else tree.erase "id"

theorem Compound.Detached.bare_eq_textNamed {tree : Compound} (h : tree.Detached) :
    tree.bare = tree.textNamed := by
  rw [h.bare_eq, textNamed]
  -- A tree that was handed out has no empty text for a name, only a good one or none at all.
  by_cases hempty : tree.nameText = ""
  · rw [if_pos hempty, getString?_eq_none h.named hempty]
    rfl
  · rw [if_neg hempty]
    cases hid : tree.getString? "id" with
    | none => exact absurd (by rw [nameText, hid]; rfl) hempty
    | some name => rfl

/-- A cell without what stands in the place of a name and is no text. -/
def Cell.textNamed (cell : Cell) : Cell := { cell with tree := cell.tree.map Compound.textNamed }

/-- A cell as it comes back to whoever wrote it. -/
def Cell.saved (cell : Cell) : Cell where
  id := cell.storedId
  data := cell.data
  tree := cell.tree.map Compound.bare

namespace Cell

theorem storedId_of_le {cell : Cell} (h : cell.id ≤ Schematic.maxBlockId) :
    cell.storedId = cell.id := by
  have hlt : cell.id.toNat < 2 ^ 12 := Nat.lt_succ_of_le (UInt16.le_iff_toNat_le.1 h)
  apply UInt16.toNat_inj.1
  rw [storedId, UInt16.toNat_and]
  exact (Nat.and_two_pow_sub_one_eq_mod _ 12).trans (Nat.mod_eq_of_lt hlt)

theorem storedId_saved (cell : Cell) : cell.saved.storedId = cell.storedId := by
  refine storedId_of_le (UInt16.le_iff_toNat_le.2 ?_)
  exact Nat.le_of_lt_succ cell.storedId_toNat_lt

end Cell

namespace Clipboard

variable {ε : Type} {r : Registry} {c : Clipboard}

/-- The clipboard as it comes back to whoever wrote it. -/
def saved (c : Clipboard) : Clipboard := c.map Cell.saved

theorem HandedOut.distinct (h : c.HandedOut) : c.Distinct :=
  ⟨fun cell hcell tree htree => (h.trees cell hcell tree htree).distinct, h.entityTrees⟩

/-- In one registry every number means itself. -/
theorem innerId_self (hr : r.Built) (c : Clipboard) : c.innerId r r = fun _ id => id := by
  funext kind id
  cases kind with
  | block => simp [innerId, hr.counterpart_self]
  | item => exact hr.counterpart_self .item id

theorem normalisedCell_self (hr : r.Built) (c : Clipboard) (cell : Cell) :
    c.normalisedCell r r cell = cell.saved := by
  simp [normalisedCell, Cell.saved, hr.counterpart_self, innerId_self hr, Compound.translateIds_id]

theorem normalised_self (hr : r.Built) (h : c.HandedOut) : c.normalised r r = c.saved := by
  have hcells : c.normalisedCell r r = Cell.saved := funext (normalisedCell_self hr c)
  have hentities : c.entities.filterMap Entity.normalised? = c.entities := by
    apply Array.toList_inj.1
    rw [Array.toList_filterMap]
    calc
      c.entities.toList.filterMap Entity.normalised? = c.entities.toList.filterMap some :=
        List.filterMap_congr fun e he => h.entities e (Array.mem_toList_iff.1 he)
      _ = c.entities.toList := List.filterMap_some
  simp only [normalised, saved, map, hcells, hentities]

/-- A clipboard that was read is written without fail, and read again without a word. -/
theorem HandedOut.yields_saved (h : c.HandedOut) (hr : r.Built) :
    ∃ t, Yields (c.toFile r) ⟨Schematic.rootName, .compound (c.fields t)⟩ ∧
      t.Records r c.namedIds ∧
      Silently (TagFile.readClipboard ⟨Schematic.rootName, .compound (c.fields t)⟩ r) c.saved := by
  rcases yields_toFile h.distinct hr h.small with ⟨t, hwritten, hrecords⟩
  rcases silently_ofFile h.distinct hr h.small hrecords with ⟨conversion, hread, hcarries⟩
  refine ⟨t, hwritten, hrecords, ?_⟩
  -- Every tree was written with the position of its cell, so none of them is a stray.
  have hstrays : (c.decoded conversion).strays = 0 := by
    refine List.countP_eq_zero.2 fun place hplace => ?_
    have hinside := contains_of_mem_anchoredTrees h.small (Std.HashMap.mem_keys.1 hplace)
    simpa [decoded] using hinside
  have hback := TagFile.silently_readClipboard hread h.small hstrays
  rwa [toClipboard_decoded h.small hcarries, normalised_self hr h] at hback

theorem HandedOut.saved_eq (h : c.HandedOut)
    (low : ∀ cell ∈ c.cells, cell.id ≤ Schematic.maxBlockId) : c.saved = c.map Cell.textNamed := by
  have hcells : c.cells.map Cell.saved = c.cells.map Cell.textNamed := by
    refine Array.map_congr_left fun cell hcell => ?_
    have htree : cell.tree.map Compound.bare = cell.tree.map Compound.textNamed := by
      cases hown : cell.tree with
      | none => rfl
      | some tree => exact congrArg some (h.trees cell hcell tree hown).bare_eq_textNamed
    rw [Cell.saved, Cell.textNamed, Cell.storedId_of_le (low cell hcell), htree]
  simp only [saved, map, hcells]

/-- Nothing is lost exactly where all names are texts. -/
theorem HandedOut.map_textNamed_eq_self_iff (h : c.HandedOut) :
    c.map Cell.textNamed = c ↔
      ∀ cell ∈ c.cells, ∀ tree, cell.tree = some tree → tree.NamedByText := by
  have hcell : ∀ cell ∈ c.cells, cell.textNamed = cell ↔
      ∀ tree, cell.tree = some tree → tree.NamedByText := by
    intro cell hmem
    rcases cell with ⟨id, data, own⟩
    cases own with
    | none => simp [Cell.textNamed]
    | some tree =>
        have hdetached := h.trees _ hmem tree rfl
        simp [Cell.textNamed, ← hdetached.bare_eq_self_iff, hdetached.bare_eq_textNamed]
  rw [map_eq_self_iff]
  exact forall₂_congr hcell

end Clipboard

/-- Whoever saves what they have read and reads it again has it again, but for what stood in the
place of a name and was no text. -/
theorem TagFile.readClipboard_saved {r : Registry} {file : TagFile} {s : Clipboard}
    {said said' : Array Notice} (hr : r.Built) (built : file.root.Built)
    (read : file.readClipboard r said = .ok s said')
    (low : ∀ cell ∈ s.cells, cell.id ≤ Schematic.maxBlockId) :
    ∃ file', Yields (s.toFile r) file' ∧
      Yields (file'.readClipboard r) (s.map Cell.textNamed) ∧
      (s.map Cell.textNamed = s ↔
        ∀ cell ∈ s.cells, ∀ tree, cell.tree = some tree → tree.NamedByText) := by
  have hs := handedOut_of_readClipboard built read
  rcases hs.yields_saved hr with ⟨t, hwritten, -, hback⟩
  rw [hs.saved_eq low] at hback
  exact ⟨_, hwritten, hback.yields, hs.map_textNamed_eq_self_iff⟩

/-- A block whose tree has a byte in the place of a name. -/
def numberedClipboard : Clipboard where
  region := ⟨.zero, 1, 1, 1⟩
  origin := .zero
  cells := #[⟨1, 0, some ⟨[("id", .byte 3)]⟩⟩]
  size_cells := rfl

/-- A schematic with such a block. -/
def numberedFile : TagFile where
  name := Schematic.rootName
  root := .compound ⟨[("Width", .short 1), ("Height", .short 1), ("Length", .short 1),
    ("Materials", .string "Alpha"), ("Blocks", .byteArray #[1]), ("Data", .byteArray #[0]),
    ("TileEntities", .list (TagList.ofCompounds [⟨[("id", .byte 3)]⟩]))]⟩

theorem built_numberedFile : numberedFile.root.Built := by
  apply Tag.built_iff_regular.2
  constructor
  · simp [numberedFile, Tag.Everywhere, Tag.nodes, Tag.nodesOfFields, Tag.nodesOfItems,
      TagList.ofCompounds, Tag.UniformNode, TagList.Uniform, Tag.kind]
  · simp [numberedFile, Tag.Everywhere, Tag.nodes, Tag.nodesOfFields, Tag.nodesOfItems,
      TagList.ofCompounds, Tag.DistinctNode, OrderedMap.Distinct, OrderedMap.keys]

theorem yields_readClipboard_numberedFile :
    Yields (numberedFile.readClipboard .empty) numberedClipboard := by
  let d : Decoded :=
    { region := ⟨.zero, 1, 1, 1⟩, origin := .zero, planes := { blocks := #[1], data := #[0] },
      conversion := {}, anchored := Decoded.anchoredTrees {} [⟨[("id", .byte 3)]⟩], entities := [] }
  have hread : Silently (Decoded.ofFile .empty numberedFile) d := fun _ => rfl
  have htree : d.anchored[d.region.relativePosition 0]? = some ⟨[("id", .byte 3)]⟩ :=
    (Decoded.getElem?_anchoredTrees_eq _ _ _).trans (by cbv)
  exact TagFile.yields_readClipboard_single hread.yields (by decide) rfl rfl rfl rfl rfl
    (congrArg (Cell.mk 1 0) htree)

theorem readClipboard_saved_numberedFile :
    ∃ file', Yields (numberedClipboard.toFile .empty) file' ∧
      Yields (file'.readClipboard .empty) (numberedClipboard.map Cell.textNamed) ∧
      (numberedClipboard.map Cell.textNamed).cells[0]? = some ⟨1, 0, some .empty⟩ := by
  rcases yields_readClipboard_numberedFile #[] with ⟨said', hread⟩
  rcases TagFile.readClipboard_saved .empty built_numberedFile hread (by decide) with
    ⟨file', hwritten, hback, -⟩
  exact ⟨file', hwritten, hback, by cbv⟩

/-- The byte is gone when the clipboard is read again. -/
theorem numberedClipboard_not_restored :
    Registry.empty.Built ∧ numberedFile.root.Built ∧
      Yields (numberedFile.readClipboard .empty) numberedClipboard ∧
      (∀ cell ∈ numberedClipboard.cells, cell.id ≤ Schematic.maxBlockId) ∧
      ∃ file' back, Yields (numberedClipboard.toFile .empty) file' ∧
        Yields (file'.readClipboard .empty) back ∧
        numberedClipboard.same numberedClipboard = true ∧ back.same numberedClipboard = false := by
  rcases yields_readClipboard_numberedFile #[] with ⟨said', hread⟩
  have hs := TagFile.handedOut_of_readClipboard built_numberedFile hread
  rcases hs.yields_saved .empty with ⟨t, hwritten, -, hback⟩
  refine ⟨.empty, built_numberedFile, yields_readClipboard_numberedFile, by decide, _, _, hwritten,
    hback.yields, by cbv, by cbv⟩

end VoxelSchematic
