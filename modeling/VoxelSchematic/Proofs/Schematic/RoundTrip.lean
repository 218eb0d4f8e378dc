import VoxelSchematic.Proofs.Schematic.Fields
import VoxelSchematic.Proofs.Schematic.Mapping
import VoxelSchematic.Proofs.Schematic.Placement

/-!
# Reading undoes writing

`Clipboard.normalised` is what a clipboard comes back as when it is written with one registry and
read with another. `yields_toFile_readClipboard` says that both steps succeed, for every clipboard
whose sides a schematic can tell, and that nothing but the normal form comes back.
-/

namespace VoxelSchematic

open Telling

/-! ## The normal form -/

/-- The numbers in a cell whose names are written. -/
def Cell.namedIds (cell : Cell) : List (IdKind × UInt16) :=
  (.block, cell.storedId) :: ((cell.tree.map fun tree => tree.bare.heldIds).getD [])

namespace Clipboard

variable {ε : Type} {w r : Registry} {c : Clipboard}

/-- Trees of cells and entities are maps, so no field is stated twice. -/
structure Distinct (c : Clipboard) : Prop where
  cells : ∀ cell ∈ c.cells, ∀ tree, cell.tree = some tree → tree.Distinct
  entities : ∀ e ∈ c.entities, ∀ tree, e.tree = some tree → tree.Distinct

def namedIds (c : Clipboard) : List (IdKind × UInt16) := c.cells.toList.flatMap Cell.namedIds

/-- Whether the name of some item in the clipboard is known to the reader. -/
def knowsItems (c : Clipboard) (w r : Registry) : Bool :=
  c.namedIds.any fun held => held.1 == .item && (w.resolve? r .item held.2).isSome

/-- What a number in a tree comes to. Blocks inside trees wait for an item that is known. -/
def innerId (c : Clipboard) (w r : Registry) : IdKind → UInt16 → UInt16
  | .item, id => w.counterpart r .item id
  | .block, id => if c.knowsItems w r then w.counterpart r .block id else id

def normalisedCell (c : Clipboard) (w r : Registry) (cell : Cell) : Cell where
  id := w.counterpart r .block cell.storedId
  data := cell.data
  tree := cell.tree.map fun tree => tree.bare.translateIds (c.innerId w r)

/-- The clipboard as it is read with `r` after it was written with `w`. -/
def normalised (c : Clipboard) (w r : Registry) : Clipboard where
  region := c.region
  origin := c.origin
  cells := c.cells.map (c.normalisedCell w r)
  entities := c.entities.filterMap Entity.normalised?
  size_cells := by simp [c.size_cells]

/-! ## Writing -/

/-- What the log is told of numbers that are recorded. -/
def unnamedLogs (w : Registry) (ids : List (IdKind × UInt16)) : List LogRecord :=
  logsOf (ids.flatMap (RemapTable.unnamedNotes w))

theorem unnamedLogs_append (w : Registry) (ids more : List (IdKind × UInt16)) :
    unnamedLogs w (ids ++ more) = unnamedLogs w ids ++ unnamedLogs w more := by
  rw [unnamedLogs, List.flatMap_append, logsOf_append]
  rfl

/-- The tree of a cell adds its numbers to those recorded, and what comes next goes on from
there. -/
theorem recordTree_records {t : RemapTable} {ids : List (IdKind × UInt16)} {cell : Cell}
    (place : BlockPos) (h : t.Records w (ids ++ [(.block, cell.storedId)])) (hw : w.Built)
    (distinct : ∀ tree, cell.tree = some tree → tree.Distinct) :
    ∃ t', t'.Records w (ids ++ cell.namedIds) ∧
      ∀ (next : RemapTable → Telling ε RemapTable) (final : RemapTable) (logs : List LogRecord),
        Logs (next t') final logs →
        Logs (match cell.tree with
          | some tree => (tileEntityRecord place tree).recordIds w t >>= next
          | none => pure t >>= next) final (unnamedLogs w cell.namedIds ++ logs) := by
  cases hown : cell.tree with
  | none =>
      have hids : cell.namedIds = [(.block, cell.storedId)] := by simp [Cell.namedIds, hown]
      rw [hids]
      exact ⟨t, h, fun next final logs hnext => (silently_pure t).logs_bind hnext⟩
  | some tree =>
      rcases h.recordIds (ε := ε) hw (tileEntityRecord place tree) with ⟨t', htells, hall⟩
      have hids : cell.namedIds =
          [(.block, cell.storedId)] ++ (tileEntityRecord place tree).heldIds := by
        rw [heldIds_tileEntityRecord place (distinct tree hown)]
        simp [Cell.namedIds, hown]
      rw [hids, ← List.append_assoc]
      exact ⟨t', hall, fun next final logs hnext => htells.logs.bind hnext⟩

/-- Every cell adds its numbers to those recorded, and the log is told which items have no name. -/
theorem nameCells_records {t : RemapTable} {ids : List (IdKind × UInt16)}
    {cells : List (Cell × Nat)} (truncated : Bool) (h : t.Records w ids) (hw : w.Built)
    (distinct : ∀ entry ∈ cells, ∀ tree, entry.1.tree = some tree → tree.Distinct) :
    ∃ t', Logs (c.nameCells w truncated cells t : Telling ε RemapTable) t'
        (unnamedLogs w ((cells.map Prod.fst).flatMap Cell.namedIds)) ∧
      t'.Records w (ids ++ (cells.map Prod.fst).flatMap Cell.namedIds) := by
  -- The table holds the names of all numbers before this cell, whether or not a number was too high.
  induction cells generalizing t ids truncated with
  | nil => exact ⟨t, logs_pure t, h.congr (by simp)⟩
  | cons entry rest ih =>
      rcases entry with ⟨cell, i⟩
      rcases List.forall_mem_cons.1 distinct with ⟨hcell, hrest⟩
      rcases h.recordBlock (ε := ε) hw cell.storedId with ⟨mid, hblock, hrecords⟩
      rcases recordTree_records (ε := ε) (c.region.relativePosition i) hrecords hw hcell with
        ⟨next, hnext, htree⟩
      rcases ih (truncated || decide (cell.id > Schematic.maxBlockId)) hnext hrest with
        ⟨t', hlogs, hall⟩
      refine ⟨t', ?_, hall.congr (by simp)⟩
      -- The report on a number that is too high holds up nothing.
      rw [nameCells, List.map_cons, List.flatMap_cons, unnamedLogs_append]
      exact .after_warn _ _ (hblock.logs_bind (htree _ t' _ hlogs))

theorem names_records (c : Clipboard) (hw : w.Built) (distinct : c.Distinct) :
    ∃ t, Logs (c.names w : Telling ε RemapTable) t (unnamedLogs w c.namedIds) ∧
      t.Records w c.namedIds := by
  have hcells : ∀ entry ∈ c.cells.toList.zipIdx,
      ∀ tree, entry.1.tree = some tree → tree.Distinct := by
    intro entry hentry
    exact distinct.cells entry.1 (Array.mem_toList_iff.1 (List.fst_mem_of_mem_zipIdx hentry))
  rcases nameCells_records (ε := ε) (c := c) false RemapTable.records_empty hw
    hcells with ⟨t, hlogs, hrecords⟩
  rw [List.zipIdx_map_fst] at hlogs hrecords
  exact ⟨t, hlogs, hrecords⟩

theorem longSide?_eq_none_iff {r : Region} : longSide? r = none ↔ r.Small := by
  simp [longSide?, Region.Small]

theorem logs_toFile (distinct : c.Distinct) (hw : w.Built) (small : c.region.Small) :
    ∃ t, Logs (c.toFile w) ⟨Schematic.rootName, .compound (c.fields t)⟩
        (unnamedLogs w c.namedIds) ∧ t.Records w c.namedIds := by
  rcases names_records (ε := SchematicError) c hw distinct with ⟨t, hnames, hrecords⟩
  refine ⟨t, ?_, hrecords⟩
  unfold toFile
  rw [longSide?_eq_none_iff.2 small]
  exact hnames.bind_silently (silently_pure _)

theorem yields_toFile (distinct : c.Distinct) (hw : w.Built) (small : c.region.Small) :
    ∃ t, Yields (c.toFile w) ⟨Schematic.rootName, .compound (c.fields t)⟩ ∧
      t.Records w c.namedIds := by
  rcases logs_toFile distinct hw small with ⟨t, hlogs, hrecords⟩
  exact ⟨t, hlogs.yields, hrecords⟩

/-! ## Reading -/

/-- What a written clipboard says, for a given conversion. -/
def decoded (c : Clipboard) (conversion : Conversion) : Decoded where
  region := c.region
  origin := c.origin
  planes := c.planes
  conversion := conversion
  anchored := Decoded.anchoredTrees conversion c.tileEntityRecords
  entities := c.entities.toList.filterMap Entity.normalised?

theorem entityList_normalised (t : RemapTable) (distinct : c.Distinct) :
    Decoded.entityList (c.fields t) = c.entities.toList.filterMap Entity.normalised? := by
  rw [entityList_fields, List.filterMap_map]
  refine List.filterMap_congr fun e he => ?_
  rw [Function.comp_apply, Entity.entity?_record (distinct.entities e (Array.mem_toList_iff.1 he))]

/-- Whoever reads the fields finds the clipboard in them; only the mapping sections are still to be
read. -/
theorem ofFile_fields (r : Registry) (t : RemapTable) (distinct : c.Distinct)
    (small : c.region.Small) :
    Decoded.ofFile r ⟨Schematic.rootName, .compound (c.fields t)⟩ = do
      let table ← RemapTable.ofSections (some t.toSections.1) (some t.toSections.2)
      let conversion ← table.conversion r
      return c.decoded conversion := by
  have hroot : Decoded.root ⟨Schematic.rootName, .compound (c.fields t)⟩ = .ok (c.fields t) := rfl
  have hblocks : Compound.getCompound? (c.fields t) Schematic.Field.blockMapping =
      some t.toSections.1 := getCompound?_fields (by simp [fieldList])
  have hitems : Compound.getCompound? (c.fields t) Schematic.Field.itemMapping =
      some t.toSections.2 := getCompound?_fields (by simp [fieldList])
  have htrees : Decoded.required (c.fields t) Schematic.Field.tileEntities .list Tag.asList? =
      .ok (TagList.ofCompounds c.tileEntityRecords) :=
    Decoded.required_eq (get?_fields (by simp [fieldList] :
      (_, Tag.list (TagList.ofCompounds c.tileEntityRecords)) ∈ c.fieldList t)) rfl
  -- Every check on the way passes; what is left is the order in which they are made.
  have hdecoded : ∀ conversion, c.decoded conversion =
      { region := c.region, origin := c.origin, planes := c.planes, conversion,
        anchored := Decoded.anchoredTrees conversion
          (TagList.compounds (TagList.ofCompounds c.tileEntityRecords)),
        entities := Decoded.entityList (c.fields t) } := by
    intro conversion
    rw [compounds_ofCompounds, entityList_normalised t distinct]
    rfl
  unfold Decoded.ofFile
  simp only [hroot, checkMaterials_fields, extent_fields t small, planesOf_fields, hblocks, hitems,
    htrees, hdecoded, ofExcept_ok, pure_bind]

/-- What was written is read, with the counterparts of the numbers. -/
theorem yields_ofFile {t : RemapTable} (r : Registry) (distinct : c.Distinct) (hw : w.Built)
    (small : c.region.Small) (hrecords : t.Records w c.namedIds) :
    ∃ conversion, Yields (Decoded.ofFile r ⟨Schematic.rootName, .compound (c.fields t)⟩)
        (c.decoded conversion) ∧ conversion.Carries w r c.namedIds := by
  rcases hrecords.silently_ofSections hw with ⟨t', hsections, hback⟩
  rcases hback.yields_conversion (ε := FormatError) r with ⟨conversion, hconversion, hcarries⟩
  refine ⟨conversion, ?_, hcarries⟩
  rw [ofFile_fields r t distinct small]
  exact hsections.yields.bind (hconversion.bind (yields_pure _))

/-- Whoever reads with the registry that was written with has nothing to say. -/
theorem silently_ofFile {t : RemapTable} (distinct : c.Distinct) (hr : r.Built)
    (small : c.region.Small) (hrecords : t.Records r c.namedIds) :
    ∃ conversion, Silently (Decoded.ofFile r ⟨Schematic.rootName, .compound (c.fields t)⟩)
        (c.decoded conversion) ∧ conversion.Carries r r c.namedIds := by
  rcases hrecords.silently_ofSections hr with ⟨t', hsections, hback⟩
  rcases hback.silently_conversion (ε := FormatError) hr with ⟨conversion, hconversion, hcarries⟩
  refine ⟨conversion, ?_, hcarries⟩
  rw [ofFile_fields r t distinct small]
  exact hsections.bind (hconversion.bind (silently_pure _))

/-! ## What is read -/

theorem knowsItems_iff :
    c.knowsItems w r = true ↔ ∃ id, (.item, id) ∈ c.namedIds ∧ (w.resolve? r .item id).isSome := by
  rw [knowsItems, List.any_eq_true]
  constructor
  · intro h
    rcases h with ⟨⟨kind, id⟩, hmem, hknown⟩
    rw [Bool.and_eq_true, beq_iff_eq] at hknown
    rcases hknown with ⟨rfl, hsome⟩
    exact ⟨id, hmem, hsome⟩
  · intro h
    rcases h with ⟨id, hmem, hsome⟩
    exact ⟨(.item, id), hmem, by simp [hsome]⟩

theorem innerId_of_knowsItems (h : c.knowsItems w r = true) (held : IdKind × UInt16) :
    c.innerId w r held.1 held.2 = w.counterpart r held.1 held.2 := by
  rcases held with ⟨kind, id⟩
  cases kind with
  | block => simp [innerId, h]
  | item => rfl

/-- If no item is known to the reader, every item that was named is its own counterpart. -/
theorem innerId_of_not_knowsItems (h : c.knowsItems w r = false) {held : IdKind × UInt16}
    (hmem : held ∈ c.namedIds) : c.innerId w r held.1 held.2 = held.2 := by
  rcases held with ⟨kind, id⟩
  cases kind with
  | block => simp [innerId, h]
  | item =>
      have hnone : w.resolve? r .item id = none := by
        by_contra hsome
        have hknown : c.knowsItems w r = true :=
          knowsItems_iff.2 ⟨id, hmem, Option.isSome_iff_ne_none.2 hsome⟩
        rw [h] at hknown
        cases hknown
      simp [innerId, Registry.counterpart, hnone]

/-- A tree whose numbers were recorded comes to have the counterparts of these. -/
theorem translated_eq {conversion : Conversion} {tree : Compound}
    (hcarries : conversion.Carries w r c.namedIds)
    (hheld : ∀ held ∈ tree.heldIds, held ∈ c.namedIds) :
    Decoded.translated conversion tree = tree.translateIds (c.innerId w r) := by
  have hsame : conversion.hasItems = c.knowsItems w r :=
    Bool.eq_iff_iff.2 (hcarries.hasItems_iff.trans knowsItems_iff.symm)
  unfold Decoded.translated
  cases hknows : c.knowsItems w r with
  | true =>
      rw [hsame, hknows, if_pos rfl, Compound.convertIds_eq]
      refine Compound.translateIds_congr fun held hmem => ?_
      rw [hcarries.translate_eq (hheld held hmem), innerId_of_knowsItems hknows]
  | false =>
      have hleave : tree.translateIds (c.innerId w r) = tree :=
        calc
          tree.translateIds (c.innerId w r) = tree.translateIds fun _ id => id :=
            Compound.translateIds_congr fun held hmem =>
              innerId_of_not_knowsItems hknows (hheld held hmem)
          _ = tree := Compound.translateIds_id tree
      rw [hsame, hknows, if_neg Bool.false_ne_true, hleave]

theorem mem_namedIds_of_cell {cell : Cell} (hcell : cell ∈ c.cells) {held : IdKind × UInt16}
    (h : held ∈ cell.namedIds) : held ∈ c.namedIds :=
  List.mem_flatMap.2 ⟨cell, Array.mem_toList_iff.2 hcell, h⟩

/-- The cell of a number is the normal form of the cell that was written. -/
theorem cell_decoded {conversion : Conversion} {i : Nat} (small : c.region.Small)
    (hcarries : conversion.Carries w r c.namedIds) (hi : i < c.cells.size) :
    (c.decoded conversion).cell i = c.normalisedCell w r c.cells[i] := by
  have hcell : c.cells[i] ∈ c.cells := Array.getElem_mem hi
  have hid : (c.decoded conversion).blockId i = w.counterpart r .block c.cells[i].storedId := by
    have hstored : (c.decoded conversion).planes.blockId i = c.cells[i].storedId := blockId_planes hi
    rw [Decoded.blockId_eq, hstored]
    exact hcarries.translate_eq (mem_namedIds_of_cell hcell List.mem_cons_self)
  have htree : (c.decoded conversion).anchored[c.region.relativePosition i]? =
      (c.normalisedCell w r c.cells[i]).tree := by
    -- The numbers of a tree are among those named, for they were recorded with its record.
    refine (getElem?_anchoredTrees small conversion hi).trans ?_
    cases hown : c.cells[i].tree with
    | none => simp [normalisedCell, hown]
    | some tree =>
        have hheld : ∀ held ∈ tree.bare.heldIds, held ∈ c.namedIds := fun held hmem =>
          mem_namedIds_of_cell hcell (by simp [Cell.namedIds, hown, hmem])
        simp [normalisedCell, hown, translated_eq hcarries hheld]
  rw [Decoded.cell, hid]
  exact congrArg₂ (Cell.mk _) (dataValue_planes hi) htree

theorem toClipboard_decoded {conversion : Conversion} (small : c.region.Small)
    (hcarries : conversion.Carries w r c.namedIds) :
    (c.decoded conversion).toClipboard = c.normalised w r := by
  refine (Decoded.eq_toClipboard rfl rfl ?_ fun j hj => ?_).symm
  · exact Array.toList_inj.1 Array.toList_filterMap
  · have hsize : j < c.cells.size := by
      rw [c.size_cells]
      exact hj
    rw [cell_decoded small hcarries hsize]
    simp [normalised, hsize]

/-- Every clipboard whose sides a schematic can tell is written, and what was written is read as the
normal form of the clipboard. -/
theorem yields_toFile_readClipboard (w r : Registry) (c : Clipboard) (hw : w.Built)
    (small : c.region.Small) (distinct : c.Distinct) :
    ∃ file, Yields (c.toFile w) file ∧ Yields (file.readClipboard r) (c.normalised w r) := by
  rcases yields_toFile distinct hw small with ⟨t, hwritten, hrecords⟩
  rcases yields_ofFile r distinct hw small hrecords with ⟨conversion, hread, hcarries⟩
  refine ⟨_, hwritten, ?_⟩
  have hplaced := Decoded.yields_place (ε := SchematicError) (d := c.decoded conversion) small
  rw [toClipboard_decoded small hcarries] at hplaced
  exact ((hread.mapError SchematicError.format).bind hplaced).bind (yields_pure _)

/-- A block that the reader knows under another number, in a region whose distance from the origin
wraps. -/
theorem yields_toFile_readClipboard_stone :
    ∃ w r, Registry.empty.withBlock "stone" 1 = .ok w ∧ Registry.empty.withBlock "stone" 7 = .ok r ∧
      let c : Clipboard :=
        { region := ⟨⟨-2147483648, 0, 0⟩, 1, 1, 1⟩
          origin := ⟨1, 0, 0⟩
          cells := #[⟨0xF001, 0x1234, some ⟨[("id", .string ""), ("x", .int 9)]⟩⟩]
          entities := #[⟨"Pig", {}, {}, none⟩, ⟨"", {}, {}, none⟩]
          size_cells := rfl }
      (∃ file, Yields (c.toFile w) file ∧ Yields (file.readClipboard r) (c.normalised w r)) ∧
        (c.normalised w r).cells[0]? = some ⟨7, 0x1234, some .empty⟩ ∧
        (c.normalised w r).entities.map Entity.typeId = #["Pig"] := by
  refine ⟨_, _, rfl, rfl, ?_, ?_, ?_⟩
  · have hbuilt := @Registry.Built.withBlock _ _ "stone" 1 .empty rfl
    refine yields_toFile_readClipboard _ _ _ hbuilt (by decide) ⟨?_, ?_⟩
    · simp [OrderedMap.Distinct, OrderedMap.keys]
    · simp
  · cbv
  · cbv

end Clipboard

end VoxelSchematic
