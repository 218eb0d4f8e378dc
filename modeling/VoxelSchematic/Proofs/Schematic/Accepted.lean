import VoxelSchematic.Proofs.Schematic.Entities
import VoxelSchematic.Proofs.Schematic.Placement
import VoxelSchematic.Proofs.Schematic.Translation
import VoxelSchematic.Proofs.Tag.Built
import VoxelSchematic.Proofs.Tag.Fields

/-!
# Schematics that were accepted

* `TagFile.of_readClipboard` takes a reading that succeeded apart. `Decoded.Says` lists what the
  decoded schematic then has to do with the fields of the file.
* `Compound.Detached` is what is known of every tree that a reader hands out, and
  `Clipboard.HandedOut` what is known of the whole clipboard.
-/

namespace VoxelSchematic

open Schematic Telling

/-! ## Readings taken apart -/

namespace Decoded

/-- Where in the root of a schematic the parts of it come from. -/
structure Says (d : Decoded) (tree : Compound) (records : TagList) : Prop where
  extent : extent tree = .ok (d.region, d.origin)
  planes : planesOf tree d.region.volume = .ok d.planes
  listed : tree.get? Field.tileEntities = some (.list records)
  anchored : d.anchored = anchoredTrees d.conversion records.compounds
  entities : d.entities = entityList tree

variable {d : Decoded} {tree : Compound} {records : TagList} {r : Registry} {file : TagFile}
  {said said' : Array Notice}

theorem required_eq_ok_iff {α : Type} {key : String} {expected : TagType} {read : Tag → Option α}
    {value : α} : required tree key expected read = .ok value ↔ tree.getAs? key read = some value :=
  Outcome.except_mapError_eq_ok_iff.trans Compound.require_eq_ok_iff

theorem of_required {α : Type} {key : String} {expected : TagType} {read : Tag → Option α}
    {value : α} (h : required tree key expected read = .ok value) :
    ∃ tag, tree.get? key = some tag ∧ read tag = some value :=
  Compound.getAs?_eq_some_iff.1 (required_eq_ok_iff.1 h)

theorem of_root (h : root file = .ok tree) : file = ⟨rootName, .compound tree⟩ := by
  rcases file with ⟨name, tag⟩
  unfold root at h
  by_cases hname : name = rootName
  · subst hname
    cases tag with
    | compound fields =>
        cases h
        rfl
    | _ => cases h
  · simp [hname, bind, Except.bind, throw, throwThe, MonadExceptOf.throw] at h

/-- A side is stated with sixteen bits. -/
theorem toNat_of_side {key : String} {size : UInt32} (h : side tree key = .ok size) :
    size.toNat ≤ maxSide := by
  simp only [side, Outcome.except_bind_eq_ok_iff] at h
  rcases h with ⟨short, -, hsize⟩
  cases hsize
  exact Nat.le_of_lt_succ short.toUInt16.toNat_lt

theorem small_of_extent {region : Region} {origin : BlockPos}
    (h : extent tree = .ok (region, origin)) : region.Small := by
  simp only [extent, Outcome.except_bind_eq_ok_iff] at h
  rcases h with ⟨width, hwidth, height, hheight, length, hlength, hregion⟩
  cases hregion
  exact ⟨toNat_of_side hwidth, toNat_of_side hheight, toNat_of_side hlength⟩

theorem Says.small (h : d.Says tree records) : d.region.Small := small_of_extent h.extent

theorem of_ofFile (h : ofFile r file said = .ok d said') :
    ∃ tree records, file = ⟨rootName, .compound tree⟩ ∧ d.Says tree records := by
  unfold ofFile at h
  simp only [Outcome.bind_eq_ok_iff, ofExcept_eq_ok_iff, Outcome.pure_apply,
    EStateM.Result.ok.injEq] at h
  -- The checks in the order in which they are made.
  rcases h with ⟨tree, _, ⟨hroot, -⟩, _, _, -, ⟨region, origin⟩, _, ⟨hextent, -⟩, planes, _,
    ⟨hplanes, -⟩, table, _, -, conversion, _, -, records, _, ⟨hrecords, -⟩, rfl, -⟩
  rcases of_required hrecords with ⟨tag, hget, hlist⟩
  cases tag with
  | list l =>
      cases hlist
      exact ⟨tree, records, of_root hroot, hextent, hplanes, hget, rfl, rfl⟩
  | _ => cases hlist

end Decoded

/-- A clipboard that was read is the decoded schematic, cell by cell. -/
theorem TagFile.of_readClipboard {r : Registry} {file : TagFile} {s : Clipboard}
    {said said' : Array Notice} (h : file.readClipboard r said = .ok s said') :
    ∃ d mid tree records, Decoded.ofFile r file said = .ok d mid ∧
      file = ⟨rootName, .compound tree⟩ ∧ d.Says tree records ∧ s = d.toClipboard := by
  unfold readClipboard readInto at h
  simp only [Outcome.bind_eq_ok_iff, mapError_eq_ok_iff, Outcome.pure_apply,
    EStateM.Result.ok.injEq] at h
  rcases h with ⟨p, last, ⟨d, mid, hread, hplaced⟩, hstore, -⟩
  rcases Decoded.of_ofFile hread with ⟨tree, records, hfile, hsays⟩
  have hp := (Decoded.yields_place (ε := SchematicError) hsays.small).eq_of_ok hplaced
  subst hp
  exact ⟨d, mid, tree, records, hread, hfile, hsays, hstore.symm⟩

theorem TagFile.yields_readClipboard {r : Registry} {file : TagFile} {d : Decoded}
    (read : Yields (Decoded.ofFile r file) d) (small : d.region.Small) :
    Yields (file.readClipboard r) d.toClipboard :=
  ((read.mapError SchematicError.format).bind (Decoded.yields_place small)).bind (yields_pure _)

/-- A schematic of a single cell that is a given one. -/
theorem TagFile.yields_readClipboard_single {r : Registry} {file : TagFile} {d : Decoded}
    {c : Clipboard} {cell : Cell} (read : Yields (Decoded.ofFile r file) d)
    (small : d.region.Small) (hregion : c.region = d.region) (horigin : c.origin = d.origin)
    (hentities : c.entities = d.entities.toArray) (hvolume : d.region.volume = 1)
    (hcells : c.cells = #[cell]) (hcell : d.cell 0 = cell) : Yields (file.readClipboard r) c := by
  have hsame : c = d.toClipboard := by
    refine Decoded.eq_toClipboard hregion horigin hentities fun j hj => ?_
    have hzero : j = 0 := by omega
    subst hzero
    simp [hcells, hcell]
  rw [hsame]
  exact yields_readClipboard read small

theorem TagFile.silently_readClipboard {r : Registry} {file : TagFile} {d : Decoded}
    (read : Silently (Decoded.ofFile r file) d) (small : d.region.Small) (hstrays : d.strays = 0) :
    Silently (file.readClipboard r) d.toClipboard :=
  ((read.mapError SchematicError.format).bind (Decoded.silently_place small hstrays)).bind
    (silently_pure _)

/-! ## Trees without a position -/

namespace Compound

/-- A tree as a reader hands it out: without a position, and without an empty name. -/
structure Detached (tree : Compound) : Prop where
  distinct : tree.Distinct
  x : tree.get? "x" = none
  y : tree.get? "y" = none
  z : tree.get? "z" = none
  named : tree.getString? "id" ≠ some ""

/-- Whatever stands in the place of a name is a text. -/
def NamedByText (tree : Compound) : Prop := ∀ tag, tree.get? "id" = some tag → tag.kind = .string

variable {tree : Compound}

theorem getString?_eq_none (h : tree.getString? "id" ≠ some "") (hname : tree.nameText = "") :
    tree.getString? "id" = none := by
  cases hid : tree.getString? "id" with
  | none => rfl
  | some name =>
      rw [nameText, hid, Option.getD_some] at hname
      rw [hid, hname] at h
      exact absurd rfl h

/-- Writing a tree that was handed out takes nothing from it, unless its name is no text. -/
theorem Detached.bare_eq (h : tree.Detached) :
    tree.bare = if tree.nameText = "" then tree.erase "id" else tree := by
  rw [bare, OrderedMap.erase_of_not_mem (OrderedMap.get?_eq_none_iff.1 h.x),
    OrderedMap.erase_of_not_mem (OrderedMap.get?_eq_none_iff.1 h.y),
    OrderedMap.erase_of_not_mem (OrderedMap.get?_eq_none_iff.1 h.z)]

theorem namedByText_bare (h : tree.Distinct) : tree.bare.NamedByText := by
  intro tag htag
  rw [get?_bare_id h] at htag
  by_cases hempty : tree.nameText = ""
  · rw [if_pos hempty] at htag
    cases htag
  · rw [if_neg hempty] at htag
    cases htag
    rfl

theorem Detached.bare_eq_self_iff (h : tree.Detached) : tree.bare = tree ↔ tree.NamedByText := by
  constructor
  · intro hsame
    rw [← hsame]
    exact namedByText_bare h.distinct
  · intro htext
    rw [h.bare_eq]
    by_cases hempty : tree.nameText = ""
    · -- Without a name there is nothing to take away.
      have hnone : tree.get? "id" = none := by
        have hstring := getString?_eq_none h.named hempty
        cases hid : tree.get? "id" with
        | none => rfl
        | some tag =>
            have hkind := htext tag hid
            unfold getString? getAs? at hstring
            rw [hid] at hstring
            cases tag with
            | string text => cases hstring
            | _ => cases hkind
      rw [if_pos hempty, OrderedMap.erase_of_not_mem (OrderedMap.get?_eq_none_iff.1 hnone)]
    · exact if_neg hempty

theorem detached_bare (h : tree.Distinct) : tree.bare.Detached where
  distinct := distinct_bare h
  x := (get?_bare_coordinates h).1
  y := (get?_bare_coordinates h).2.1
  z := (get?_bare_coordinates h).2.2
  named := by
    unfold getString? getAs?
    rw [get?_bare_id h]
    by_cases hempty : tree.nameText = ""
    · rw [if_pos hempty]
      nofun
    · rw [if_neg hempty]
      exact fun hsame => hempty (Option.some.inj hsame)

theorem bare_bare (h : tree.Distinct) : tree.bare.bare = tree.bare :=
  (detached_bare h).bare_eq_self_iff.2 (namedByText_bare h)

theorem detached_anchor {record : Compound} (h : record.Distinct) :
    Detached (Decoded.anchor record).2 := by
  have hown := get?_erase_coordinates h
  have hdistinct : (((record.erase "x").erase "y").erase "z").Distinct :=
    ((h.erase "x").erase "y").erase "z"
  simp only [Decoded.anchor, beq_iff_eq]
  split
  · next hempty =>
      have herased := get?_erase_id_coordinates hown
      have hnone : ((((record.erase "x").erase "y").erase "z").erase "id").get? "id" = none :=
        OrderedMap.get?_erase_self hdistinct
      refine ⟨hdistinct.erase "id", herased.1, herased.2.1, herased.2.2, ?_⟩
      rw [getString?, getAs?, hnone]
      simp
  · next hnamed => exact ⟨hdistinct, hown.1, hown.2.1, hown.2.2, hnamed⟩

theorem Detached.translated (h : tree.Detached) (conversion : Conversion) :
    Detached (Decoded.translated conversion tree) := by
  have hids : (tree.translateIds conversion.translate).Detached :=
    { distinct := distinct_translateIds h.distinct
      x := get?_translateIds_eq_none_iff.2 h.x
      y := get?_translateIds_eq_none_iff.2 h.y
      z := get?_translateIds_eq_none_iff.2 h.z
      named := by
        rw [(sameTexts_translateIds conversion.translate tree).texts]
        exact h.named }
  unfold Decoded.translated
  by_cases hitems : conversion.hasItems = true
  · rw [if_pos hitems, convertIds_eq]
    exact hids
  · rw [if_neg hitems]
    exact h

end Compound

/-! ## Clipboards that were read -/

theorem Decoded.mem_of_getElem?_anchoredTrees {conversion : Conversion} {records : List Compound}
    {place : BlockPos} {tree : Compound}
    (h : (anchoredTrees conversion records)[place]? = some tree) :
    ∃ record ∈ records, tree = translated conversion (anchor record).2 := by
  rw [getElem?_anchoredTrees_eq] at h
  rcases Option.map_eq_some_iff.1 h with ⟨record, hfound, htree⟩
  exact ⟨record, List.mem_reverse.1 (List.mem_of_find?_eq_some hfound), htree.symm⟩

namespace Clipboard

theorem map_eq_self_iff {c : Clipboard} {f : Cell → Cell} :
    c.map f = c ↔ ∀ cell ∈ c.cells, f cell = cell := by
  constructor
  · intro hsame cell hcell
    have hcells : c.cells.map f = c.cells := congrArg Clipboard.cells hsame
    rcases Array.mem_iff_getElem.1 hcell with ⟨i, hi, rfl⟩
    have hget := congrArg (fun cells => cells[i]?) hcells
    simpa [hi] using hget
  · intro hsame
    have hcells : c.cells.map f = c.cells :=
      calc
        c.cells.map f = c.cells.map id := Array.map_congr_left hsame
        _ = c.cells := Array.map_id _
    simp only [map, hcells]

/-- What is known of a clipboard that was read. -/
structure HandedOut (c : Clipboard) : Prop where
  small : c.region.Small
  trees : ∀ cell ∈ c.cells, ∀ tree, cell.tree = some tree → tree.Detached
  entities : ∀ e ∈ c.entities, e.normalised? = some e
  entityTrees : ∀ e ∈ c.entities, ∀ tree, e.tree = some tree → tree.Distinct

end Clipboard

variable {tree : Compound} {records : TagList}

theorem Tag.distinct_of_mem_compounds (h : Tag.Regular (.list records)) :
    ∀ record ∈ records.compounds, record.Distinct := by
  intro record hrecord
  rcases List.mem_filterMap.1 hrecord with ⟨tag, htag, hcompound⟩
  cases tag with
  | compound fields =>
      cases hcompound
      exact (regular_compound_iff.1 ((regular_list_iff.1 h).2 _ htag)).1
  | _ => cases hcompound

theorem Decoded.Says.handedOut {d : Decoded} (h : d.Says tree records)
    (regular : Tag.Regular (.compound tree)) : d.toClipboard.HandedOut := by
  have hlists : ∀ {key : String} {l : TagList}, tree.get? key = some (.list l) →
      ∀ record ∈ l.compounds, record.Distinct := by
    intro key l hget
    rcases Tag.regular_compound_iff.1 regular with ⟨-, hall⟩
    exact Tag.distinct_of_mem_compounds (hall _ (OrderedMap.mem_of_get? hget))
  have hentities : ∀ e ∈ d.entities, ∃ record : Compound, record.Distinct ∧ entity? record = some e := by
    intro e he
    rw [h.entities, entityList] at he
    cases hlist : tree.getList? Field.entities with
    | none =>
        rw [hlist] at he
        cases he
    | some l =>
        rw [hlist] at he
        rcases List.mem_filterMap.1 he with ⟨record, hrecord, hread⟩
        rcases Option.bind_eq_some_iff.1 hlist with ⟨tag, hget, htag⟩
        cases tag with
        | list found =>
            cases htag
            exact ⟨record, hlists hget record hrecord, hread⟩
        | _ => cases htag
  -- The tree of a cell comes from an anchored record, an entity from an entry of its list.
  refine ⟨h.small, fun cell hcell own hown => ?_, fun e he => ?_, fun e he own hown => ?_⟩
  · rcases Array.mem_ofFn.1 hcell with ⟨i, rfl⟩
    have hplace : d.anchored[d.region.relativePosition i]? = some own := hown
    rw [h.anchored] at hplace
    rcases mem_of_getElem?_anchoredTrees hplace with ⟨record, hrecord, rfl⟩
    exact (Compound.detached_anchor (hlists h.listed record hrecord)).translated d.conversion
  · rcases hentities e (List.mem_toArray.1 he) with ⟨record, hdistinct, hread⟩
    exact Entity.normalised?_of_entity? hdistinct hread
  · rcases hentities e (List.mem_toArray.1 he) with ⟨record, hdistinct, hread⟩
    exact Entity.distinct_tree_of_entity? hdistinct hread hown

/-- Whatever is read is handed out in order. -/
theorem TagFile.handedOut_of_readClipboard {r : Registry} {file : TagFile} {s : Clipboard}
    {said said' : Array Notice} (built : file.root.Built)
    (read : file.readClipboard r said = .ok s said') : s.HandedOut := by
  rcases of_readClipboard read with ⟨d, mid, tree, records, -, rfl, hsays, rfl⟩
  exact hsays.handedOut built.regular

end VoxelSchematic
