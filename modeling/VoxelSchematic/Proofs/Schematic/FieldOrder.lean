import VoxelSchematic.Proofs.Schematic.Accepted
import VoxelSchematic.Proofs.Schematic.Sections
import VoxelSchematic.Proofs.Schematic.TwinTrees

/-!
# The order of fields does not matter

Two equal files may list the fields of their compounds in different orders.

* `RemapTable.agree_ofSections`: sections of distinct numbers state the same names in any order.
* `Decoded.agree_ofFile`: equal files say the same things of cells and entities.
* `TagFile.readClipboard_same`: equal files are read as equal clipboards, with the same notices.
-/

namespace VoxelSchematic

open Schematic Telling

/-! ## Mapping sections -/

/-- The compound holds only shorts, and no two of the same value. -/
def Compound.ShortsApart (fields : Compound) : Prop :=
  ∃ values : List Int16, fields.values = values.map Tag.short ∧ values.Nodup

namespace RemapTable

variable {a b : Compound} {name : String} {id : UInt16}

theorem mem_statedPairs_iff_of_twins (h : a.Twins b) (entry : String × UInt16) :
    entry ∈ statedPairs a ↔ entry ∈ statedPairs b := by
  rcases Compound.twins_iff.1 h with ⟨ha, hb, -⟩
  rcases entry with ⟨name, id⟩
  rw [mem_statedPairs_iff ha, mem_statedPairs_iff hb]
  unfold Compound.getShort?
  rw [h.getAs?_eq Tag.readsPlain_asShort?]

theorem kind_eq_of_twins (h : a.Twins b) (ha : ∀ tag ∈ a.values, tag.kind = .short) :
    ∀ tag ∈ b.values, tag.kind = .short := by
  intro tag htag
  rcases List.mem_map.1 htag with ⟨entry, hentry, rfl⟩
  have hb := (Compound.twins_iff.1 h).2.1
  rcases h.cases entry.1 with ⟨-, ht⟩ | ⟨s, t, hs, ht, hst⟩
  · rw [OrderedMap.get?_of_mem hb hentry] at ht
    cases ht
  · rw [OrderedMap.get?_of_mem hb hentry] at ht
    cases ht
    rw [← hst.same.kind_eq]
    exact ha s (List.mem_map_of_mem (OrderedMap.mem_of_get? hs))

/-- The name of a number in a section. -/
def statedName? (fields : Compound) (id : UInt16) : Option String :=
  ((statedPairs fields).find? fun entry => entry.2 == id).map Prod.fst

/-- No two names of a section state one number. -/
theorem statedName?_of_mem (h : ((statedPairs a).map Prod.snd).Nodup)
    (hmem : (name, id) ∈ statedPairs a) : statedName? a id = some name := by
  have hfound : ((statedPairs a).find? fun entry => entry.2 == id).isSome :=
    List.find?_isSome.2 ⟨(name, id), hmem, beq_self_eq_true id⟩
  rcases Option.isSome_iff_exists.1 hfound with ⟨entry, hentry⟩
  have hid : entry.2 = id := by simpa using List.find?_some hentry
  have hsame : entry = (name, id) :=
    List.inj_on_of_nodup_map h (List.mem_of_find?_eq_some hentry) hmem hid
  rw [statedName?, hentry, hsame]
  rfl

theorem mem_of_statedName? (h : statedName? a id = some name) : (name, id) ∈ statedPairs a := by
  rcases Option.map_eq_some_iff.1 h with ⟨⟨name, number⟩, hentry, rfl⟩
  have hid : number = id := by simpa using List.find?_some hentry
  subst hid
  exact List.mem_of_find?_eq_some hentry

theorem statedName?_inj (ha : a.Distinct) {x y : UInt16} (hx : statedName? a x = some name)
    (hy : statedName? a y = some name) : x = y := by
  have hgetx := (mem_statedPairs_iff ha).1 (mem_of_statedName? hx)
  have hgety := (mem_statedPairs_iff ha).1 (mem_of_statedName? hy)
  have hnumbers : x.toInt16 = y.toInt16 := Option.some.inj (hgetx.symm.trans hgety)
  rw [← toUInt16_toInt16 x, hnumbers, toUInt16_toInt16]

theorem nodup_of_shortsApart (h : a.ShortsApart) : ((statedPairs a).map Prod.snd).Nodup := by
  rcases h with ⟨values, hvalues, hnodup⟩
  have hnumbers : (statedPairs a).map Prod.snd = values.map Int16.toUInt16 :=
    calc
      (statedPairs a).map Prod.snd =
          a.values.filterMap fun tag => tag.asShort?.map Int16.toUInt16 := by
        simp [statedPairs, OrderedMap.values, List.map_filterMap, List.filterMap_map,
          Function.comp_def]
      _ = values.map Int16.toUInt16 := by
        simp [hvalues, List.filterMap_map, Tag.asShort?]
  have hinjective : Function.Injective Int16.toUInt16 :=
    Function.LeftInverse.injective (g := UInt16.toInt16) fun v => by simp
  rw [hnumbers]
  exact hnodup.map hinjective

/-- Reading a section comes to know the numbers that are stated. -/
theorem names_of_readSection {naming : UInt16 → Option String} (section_ : String)
    (hshort : ∀ tag ∈ a.values, tag.kind = .short)
    (inj : ∀ x y n, naming x = some n → naming y = some n → x = y)
    (hpairs : ∀ entry ∈ statedPairs a, naming entry.2 = some entry.1) :
    ∃ table, Silently (readSection section_ (some a)) table ∧
      table.Names naming fun id => id ∈ (statedPairs a).map Prod.snd := by
  rcases silently_readEntries section_ IdTable.names_empty inj hpairs with ⟨table, hread, hnames⟩
  refine ⟨table, ?_, hnames.congr fun id => .of_eq (false_or _)⟩
  rw [readSection, entries_eq_of_shorts hshort]
  exact hread

/-- Sections of distinct numbers state the same names in any order. -/
theorem agree_readSection {found found' : Option Compound} (section_ : String)
    (h : Option.Rel Compound.Twins found found')
    (apart : ∀ fields, found = some fields → fields.ShortsApart) :
    Agree (fun t t' => t.pairs = t'.pairs) (readSection section_ found)
      (readSection section_ found') := by
  cases h with
  | none => exact agree_pure rfl
  | @some a b hab =>
      have hapart := apart a rfl
      have hshort : ∀ tag ∈ a.values, tag.kind = .short := by
        rcases hapart with ⟨values, hvalues, -⟩
        rw [hvalues]
        simp [Tag.kind]
      -- Both sections are read under the names that the first one states.
      have hnamed : ∀ entry ∈ statedPairs a, statedName? a entry.2 = some entry.1 :=
        fun entry hentry => statedName?_of_mem (nodup_of_shortsApart hapart) hentry
      have hnamed' : ∀ entry ∈ statedPairs b, statedName? a entry.2 = some entry.1 :=
        fun entry hentry => hnamed entry ((mem_statedPairs_iff_of_twins hab entry).2 hentry)
      have inj : ∀ x y n, statedName? a x = some n → statedName? a y = some n → x = y :=
        fun x y n => statedName?_inj (Compound.twins_iff.1 hab).1
      rcases names_of_readSection section_ hshort inj hnamed with ⟨t, hread, hnames⟩
      rcases names_of_readSection section_ (kind_eq_of_twins hab hshort) inj hnamed' with
        ⟨t', hread', hnames'⟩
      -- They come to know the same numbers, and a table lists its pairs by name.
      have hknown : ∀ id, id ∈ (statedPairs a).map Prod.snd ↔ id ∈ (statedPairs b).map Prod.snd := by
        intro id
        simp only [List.mem_map, mem_statedPairs_iff_of_twins hab]
      exact hread.agree hread' ((hnames.congr hknown).pairs_eq hnames')

theorem agree_ofSections {blocks blocks' items items' : Option Compound}
    (hblocks : Option.Rel Compound.Twins blocks blocks')
    (hitems : Option.Rel Compound.Twins items items')
    (blocksApart : ∀ fields, blocks = some fields → fields.ShortsApart)
    (itemsApart : ∀ fields, items = some fields → fields.ShortsApart) :
    Agree (fun t t' => t.blocks.pairs = t'.blocks.pairs ∧ t.items.pairs = t'.items.pairs)
      (ofSections blocks items) (ofSections blocks' items') :=
  (agree_readSection Field.blockMapping hblocks blocksApart).bind fun _ _ hblock =>
    (agree_readSection Field.itemMapping hitems itemsApart).bind fun _ _ hitem =>
      agree_pure ⟨hblock, hitem⟩

/-- What names come to depends on the pairs of a table only. -/
theorem conversion_congr {ε : Type} {t t' : RemapTable} (r : Registry)
    (hblocks : t.blocks.pairs = t'.blocks.pairs) (hitems : t.items.pairs = t'.items.pairs) :
    (t.conversion r : Telling ε Conversion) = t'.conversion r := by
  rw [conversion, conversion, hblocks, hitems]

end RemapTable

/-- Each mapping section, where it is a compound, holds shorts of distinct values only. -/
def TagFile.MapsApart (file : TagFile) : Prop :=
  ∀ tree : Compound, file.root = .compound tree → ∀ key ∈ [Field.blockMapping, Field.itemMapping],
    ∀ fields, tree.getCompound? key = some fields → fields.ShortsApart

/-! ## Parts of a schematic -/

namespace Decoded

variable {α : Type} {a b : Compound}

theorem required_eq_of_twins {read : Tag → Option α} (h : a.Twins b) (hread : Tag.ReadsPlain read)
    (key : String) (expected : TagType) :
    required a key expected read = required b key expected read := by
  unfold required Compound.require
  rcases h.cases key with ⟨hs, ht⟩ | ⟨s, t, hs, ht, hst⟩
  · rw [hs, ht]
  · rw [hs, ht]
    simp only [hread.eq_of_same hst.same, hst.same.kind_eq]

theorem agree_required {R : α → α → Prop} {read : Tag → Option α} (h : a.Twins b)
    (hread : ∀ {s t : Tag}, s.Twins t → Option.Rel R (read s) (read t)) (key : String)
    (expected : TagType) :
    Agree R (Telling.ofExcept (required a key expected read))
      (Telling.ofExcept (required b key expected read)) := by
  unfold required Compound.require
  rcases h.cases key with ⟨hs, ht⟩ | ⟨s, t, hs, ht, hst⟩
  · rw [hs, ht]
    exact agree_throw _
  · have hrel := hread hst
    rw [hs, ht]
    simp only [hst.same.kind_eq]
    generalize read s = found, read t = found' at hrel
    cases hrel with
    | none => exact agree_throw _
    | some hv => exact agree_pure hv

theorem side_eq_of_twins (h : a.Twins b) (key : String) : side a key = side b key := by
  rw [side, side, required_eq_of_twins h Tag.readsPlain_asShort?]

theorem plane_eq_of_twins (h : a.Twins b) (key : String) (volume : Nat) :
    plane a key volume = plane b key volume := by
  rw [plane, plane, required_eq_of_twins h Tag.readsPlain_asByteArray?]

theorem checkMaterials_eq_of_twins (h : a.Twins b) : checkMaterials a = checkMaterials b := by
  rw [checkMaterials, checkMaterials, h.contains_eq,
    required_eq_of_twins h Tag.readsPlain_asString?]

theorem extent_eq_of_twins (h : a.Twins b) : extent a = extent b := by
  have hanchorage : anchorage a = anchorage b := by
    simp only [anchorage, Field.origin, Field.offset, vector?, h.getInt?_eq]
  simp only [extent, hanchorage, side_eq_of_twins h]

theorem planesOf_eq_of_twins (h : a.Twins b) (volume : Nat) : planesOf a volume = planesOf b volume := by
  simp only [planesOf, firstPlane?, plane_eq_of_twins h, h.getByteArray?_eq]

/-! ## Tile entities -/

theorem twins_anchor (h : a.Twins b) :
    (anchor a).1 = (anchor b).1 ∧ Compound.Twins (anchor a).2 (anchor b).2 := by
  have htree : Compound.Twins (((a.erase "x").erase "y").erase "z")
      (((b.erase "x").erase "y").erase "z") := ((h.erase "x").erase "y").erase "z"
  refine ⟨by simp only [anchor, coordinate, h.getInt?_eq], ?_⟩
  simp only [anchor, htree.getString?_eq]
  split
  · exact htree.erase "id"
  · exact htree

theorem twins_translated (conversion : Conversion) (h : a.Twins b) :
    Compound.Twins (translated conversion a) (translated conversion b) := by
  unfold translated
  split
  · exact h.translateIds conversion.translate
  · exact h

/-- Equal records leave equal trees in the same places. -/
theorem rel_anchoredTrees (conversion : Conversion) {records others : List Compound}
    (h : List.Forall₂ Compound.Twins records others) :
    ∀ place : BlockPos, Option.Rel Compound.Twins (anchoredTrees conversion records)[place]?
      (anchoredTrees conversion others)[place]? := by
  let Placed (trees trees' : Std.HashMap BlockPos Compound) : Prop :=
    ∀ place : BlockPos, Option.Rel Compound.Twins trees[place]? trees'[place]?
  have hempty : Placed ∅ ∅ := by
    intro place
    rw [Std.HashMap.getElem?_empty]
    exact .none
  -- Both lists are gone through side by side, and one step keeps the maps alike.
  refine List.rel_foldl (P := Placed) (R := Compound.Twins) ?_ hempty h
  intro trees trees' htrees a b hab place
  rcases twins_anchor hab with ⟨hplace, htree⟩
  simp only [Std.HashMap.getElem?_insert, hplace]
  split
  · exact .some (twins_translated conversion htree)
  · exact htrees place

/-! ## Entities -/

theorem same_floatAt {l l' : TagList} (h : Tag.Twins (.list l) (.list l')) (i : Nat) :
    (l.floatAt i).same (l'.floatAt i) = true := by
  have hitem := rel_getElem? (Tag.twins_list_iff.1 h).2 i
  have hnumber := rel_bind hitem fun s t hst => hst.same.toFloat?
  exact rel_getD hnumber Ieee.Binary64.same_zero

theorem sameTree_of_rel {found found' : Option Compound}
    (h : Option.Rel Compound.Twins found found') : sameTree found found' = true := by
  cases h with
  | none => rfl
  | some hab => exact hab.same

theorem sameTree_withTree (e e' : Entity) {tree tree' : Compound} (h : tree.Twins tree') :
    sameTree (e.withTree tree).tree (e'.withTree tree').tree = true := by
  simp only [Entity.withTree, h.isEmpty_eq]
  split
  · rfl
  · exact h.same

/-- Equal records are equal entities, or none. -/
theorem rel_entity? (h : a.Twins b) :
    Option.Rel (fun e e' => e.same e' = true) (entity? a) (entity? b) := by
  have hlist : ∀ key, Option.Rel (fun l l' => Tag.Twins (.list l) (.list l')) (a.getList? key)
      (b.getList? key) := h.rel_getAs? fun hst => hst.asList?
  let point (l : TagList) : Point := ⟨l.floatAt 0, l.floatAt 1, l.floatAt 2⟩
  have hpoint : ∀ l l', Tag.Twins (.list l) (.list l') → (point l).same (point l') = true := by
    intro l l' hl
    simp only [point, Point.same, same_floatAt hl, Bool.and_true]
  have hposition : (((a.getList? "Pos").map point).getD {}).same
      (((b.getList? "Pos").map point).getD {}) = true :=
    rel_getD (T := fun p q => Point.same p q = true) (rel_map (hlist "Pos") hpoint) (by decide)
  let facing (l : TagList) : Facing := ⟨(l.floatAt 0).narrow, (l.floatAt 1).narrow⟩
  have hfacing : ∀ l l', Tag.Twins (.list l) (.list l') → (facing l).same (facing l') = true := by
    intro l l' hl
    simp only [facing, Facing.same, Ieee.Binary64.same_narrow (same_floatAt hl _), Bool.and_true]
  have hrotation : (((a.getList? "Rotation").map facing).getD {}).same
      (((b.getList? "Rotation").map facing).getD {}) = true :=
    rel_getD (T := fun p q => Facing.same p q = true) (rel_map (hlist "Rotation") hfacing)
      (by decide)
  have htree : Compound.Twins (((a.erase "id").erase "Pos").erase "Rotation")
      (((b.erase "id").erase "Pos").erase "Rotation") := ((h.erase "id").erase "Pos").erase "Rotation"
  unfold entity?
  rw [h.getString?_eq]
  by_cases hname : ((b.getString? "id").getD "").isEmpty = true
  · rw [if_pos hname, if_pos hname]
    exact .none
  · rw [if_neg hname, if_neg hname]
    refine .some ?_
    simp only [Entity.same, Bool.and_eq_true]
    exact ⟨⟨⟨beq_self_eq_true _, hposition⟩, hrotation⟩, sameTree_withTree _ _ htree⟩

theorem forall₂_compounds {l l' : TagList} (h : Tag.Twins (.list l) (.list l')) :
    List.Forall₂ Compound.Twins l.compounds l'.compounds :=
  List.rel_filterMap (fun _ _ hst => hst.asCompound?) (Tag.twins_list_iff.1 h).2

theorem forall₂_entityList (h : a.Twins b) :
    List.Forall₂ (fun e e' => e.same e' = true) (entityList a) (entityList b) := by
  have hlist : Option.Rel (fun l l' => Tag.Twins (.list l) (.list l')) (a.getList? Field.entities)
      (b.getList? Field.entities) := h.rel_getAs? (fun hst => hst.asList?) _
  unfold entityList
  generalize a.getList? Field.entities = found, b.getList? Field.entities = found' at hlist
  cases hlist with
  | none => exact .nil
  | some hl => exact List.rel_filterMap (fun _ _ hab => rel_entity? hab) (forall₂_compounds hl)

/-! ## Whole schematics -/

/-- Two decoded schematics say the same, apart from the order of fields in trees. -/
structure Alike (d d' : Decoded) : Prop where
  region : d.region = d'.region
  origin : d.origin = d'.origin
  planes : d.planes = d'.planes
  conversion : d.conversion = d'.conversion
  anchored : ∀ place : BlockPos, Option.Rel Compound.Twins d.anchored[place]? d'.anchored[place]?
  entities : List.Forall₂ (fun e e' => e.same e' = true) d.entities d'.entities
  small : d.region.Small

variable {d d' : Decoded}

theorem Alike.strays_eq (h : d.Alike d') : d.strays = d'.strays := by
  -- The maps have the same places, if perhaps in different orders, and only the places count.
  have hkeys : d.anchored.keys.Perm d'.anchored.keys := by
    refine (List.perm_ext_iff_of_nodup d.anchored.nodup_keys d'.anchored.nodup_keys).2 fun place => ?_
    simp only [Std.HashMap.mem_keys, Std.HashMap.mem_iff_isSome_getElem?,
      isSome_eq_of_rel (h.anchored place)]
  rw [strays, strays, h.region]
  exact hkeys.countP_eq _

theorem Alike.same_cell (h : d.Alike d') (i : Nat) : (d.cell i).same (d'.cell i) = true := by
  have hid : d.blockId i = d'.blockId i := by rw [blockId, blockId, h.conversion, h.planes]
  have htree : sameTree d.anchored[d.region.relativePosition i]?
      d'.anchored[d'.region.relativePosition i]? = true := by
    rw [← h.region]
    exact sameTree_of_rel (h.anchored _)
  simp only [cell, Cell.same, hid, h.planes, htree, beq_self_eq_true, Bool.and_true]

theorem Alike.same_toClipboard (h : d.Alike d') : d.toClipboard.same d'.toClipboard = true := by
  have hcells : d.toClipboard.cells.size = d'.toClipboard.cells.size := by
    rw [d.toClipboard.size_cells, d'.toClipboard.size_cells]
    exact congrArg Region.volume h.region
  have hzip : (d.toClipboard.cells.zip d'.toClipboard.cells).all (fun pair => pair.1.same pair.2) =
      true := by
    apply Array.all_eq_true.2
    intro i hi
    simp only [toClipboard, Array.getElem_zip, Array.getElem_ofFn, h.same_cell]
  rcases List.forall₂_iff_zip.1 h.entities with ⟨hlength, hentities⟩
  simp only [Clipboard.same, Bool.and_eq_true]
  refine ⟨⟨⟨⟨⟨?_, ?_⟩, ?_⟩, hzip⟩, ?_⟩, ?_⟩
  · exact beq_iff_eq.2 h.region
  · exact beq_iff_eq.2 h.origin
  · exact beq_iff_eq.2 hcells
  · exact beq_iff_eq.2 (by simpa [toClipboard] using hlength)
  · simpa [toClipboard] using fun e e' he => hentities he

theorem Alike.agree_place {ε : Type} (h : d.Alike d') :
    Agree (fun p p' => p.store.same p'.store = true)
      (d.place (Clipboard.withOrigin d.region d.origin) : Telling ε (Placement Clipboard))
      (d'.place (Clipboard.withOrigin d'.region d'.origin)) := by
  rw [place_eq h.small, place_eq (h.region ▸ h.small), h.strays_eq]
  by_cases hstrays : d'.strays > 0
  · rw [if_pos hstrays, if_pos hstrays]
    exact (agree_self _).bind fun _ _ _ => agree_pure h.same_toClipboard
  · rw [if_neg hstrays, if_neg hstrays]
    exact agree_pure h.same_toClipboard

variable {file file' : TagFile}

theorem agree_root (hname : file.name = file'.name) (h : file.root.Twins file'.root) :
    Agree (fun a b => Compound.Twins a b ∧ file.root = .compound a) (Telling.ofExcept (root file))
      (Telling.ofExcept (root file')) := by
  unfold root
  rw [hname]
  by_cases hroot : file'.name != rootName
  · rw [if_pos hroot, if_pos hroot]
    exact agree_throw _
  · rw [if_neg hroot, if_neg hroot]
    generalize hs : file.root = s, file'.root = t at h
    -- A root that is no compound is named by its type, which twins share.
    cases h.same.form with
    | compound a b => exact agree_pure ⟨h, rfl⟩
    | leaf _ hcompound =>
        cases s with
        | compound a => exact absurd rfl hcompound
        | _ => exact agree_throw _
    | _ => exact agree_throw _

/-- The extents of twins are the same, and small. -/
theorem agree_extent (h : a.Twins b) :
    Agree (fun found found' => found = found' ∧ found.1.Small) (Telling.ofExcept (extent a))
      (Telling.ofExcept (extent b)) := by
  rw [extent_eq_of_twins h]
  cases hextent : extent b with
  | error fault => exact agree_throw fault
  | ok found => exact agree_pure ⟨rfl, small_of_extent hextent⟩

/-- Equal files say the same things of cells and entities. -/
theorem agree_ofFile (r : Registry) (hname : file.name = file'.name)
    (h : file.root.Twins file'.root) (apart : file.MapsApart) :
    Agree Alike (ofFile r file) (ofFile r file') := by
  unfold ofFile
  refine (agree_root hname h).bind fun a b hroot => ?_
  rcases hroot with ⟨hab, hroot⟩
  have hsection : ∀ key, Option.Rel Compound.Twins (a.getCompound? key) (b.getCompound? key) :=
    hab.rel_getAs? fun hst => hst.asCompound?
  have hshorts : ∀ key ∈ [Field.blockMapping, Field.itemMapping], ∀ fields,
      a.getCompound? key = some fields → fields.ShortsApart := apart a hroot
  -- The steps of the reading in their order. Up to the sections they are the same work.
  rw [checkMaterials_eq_of_twins hab]
  refine (agree_self _).bind fun _ _ _ => (agree_extent hab).bind ?_
  rintro ⟨region, origin⟩ _ ⟨rfl, hsmall⟩
  simp only [planesOf_eq_of_twins hab]
  refine (agree_self _).bind ?_
  rintro planes _ rfl
  -- The tables may differ in how they came about, but not in what they list.
  refine (RemapTable.agree_ofSections (hsection _) (hsection _) (hshorts _ (by simp))
    (hshorts _ (by simp))).bind fun t t' ht => ?_
  rw [RemapTable.conversion_congr r ht.1 ht.2]
  refine (agree_self _).bind ?_
  rintro conversion _ rfl
  refine (agree_required hab (fun hst => hst.asList?) _ _).bind fun records records' hrecords => ?_
  exact agree_pure ⟨rfl, rfl, rfl, rfl, rel_anchoredTrees conversion (forall₂_compounds hrecords),
    forall₂_entityList hab, hsmall⟩

end Decoded

namespace TagFile

variable {file file' : TagFile}

theorem same_iff : file.same file' = true ↔ file.name = file'.name ∧ file.root.Same file'.root := by
  simp [TagFile.same]

/-- Reading does not depend on the order of fields, and neither does a rewriting by answers that
depend on the number only. -/
theorem readClipboard_same :
    (∀ (r : Registry) (file file' : TagFile), file.root.Built → file'.root.Built →
      file.same file' = true → file.MapsApart →
        Agree (fun c c' => c.same c' = true) (file.readClipboard r) (file'.readClipboard r)) ∧
    ∀ (f : IdKind → UInt16 → UInt16) (a b : Compound), Tag.Built (.compound a) →
      Tag.Built (.compound b) → a.same b = true →
        Compound.same (Id.run (a.rewriteIds fun kind id => pure (f kind id)))
          (Id.run (b.rewriteIds fun kind id => pure (f kind id))) = true := by
  constructor
  · intro r file file' built built' hsame apart
    rcases same_iff.1 hsame with ⟨hname, hroot⟩
    have htwins : file.root.Twins file'.root := built.twins built' hroot
    have hread := (Decoded.agree_ofFile r hname htwins apart).mapError SchematicError.format
    have hplaced := hread.bind fun d d' hd => hd.agree_place (ε := SchematicError)
    exact hplaced.bind fun p p' hp => agree_pure hp
  · intro f a b ha hb hsame
    have htwins : a.Twins b := ha.twins hb (Tag.same_compound_iff.2 hsame)
    exact (htwins.translateIds f).same

end TagFile

/-! ## A chest in two orders -/

section

variable (turn : List (String × Tag) → List (String × Tag))

/-- A schematic of a chest with an item. Every compound lists its fields in the order that `turn`
makes. -/
def turnedFields : Compound :=
  ⟨turn [("Width", .short 1), ("Height", .short 1), ("Length", .short 1),
    ("Materials", .string "Alpha"), ("Blocks", .byteArray #[1]), ("Data", .byteArray #[0]),
    ("BlockMapping", .compound ⟨turn [("stone", .short 1), ("dirt", .short 2)]⟩),
    ("TileEntities", .list (TagList.ofCompounds [⟨turn [("id", .string "Chest"),
      ("Items", .list (TagList.ofCompounds
        [⟨turn [("id", .short 1), ("Count", .byte 3), ("Damage", .short 0)]⟩]))]⟩]))]⟩

def turnedFile : TagFile := ⟨rootName, .compound (turnedFields turn)⟩

end

theorem built_turnedFields {turn : List (String × Tag) → List (String × Tag)}
    (h : turn = id ∨ turn = List.reverse) : Tag.Built (.compound (turnedFields turn)) := by
  apply Tag.built_iff_regular.2
  constructor
  · rcases h with rfl | rfl <;>
      simp [turnedFields, Tag.Everywhere, Tag.nodes, Tag.nodesOfFields, Tag.nodesOfItems,
        TagList.ofCompounds, Tag.UniformNode, TagList.Uniform, Tag.kind]
  · rcases h with rfl | rfl <;>
      simp [turnedFields, Tag.Everywhere, Tag.nodes, Tag.nodesOfFields, Tag.nodesOfItems,
        TagList.ofCompounds, Tag.DistinctNode, OrderedMap.Distinct, OrderedMap.keys]

theorem mapsApart_turnedFile : (turnedFile id).MapsApart := by
  intro tree htree key hkey fields hfields
  cases htree
  rcases List.mem_cons.1 hkey with rfl | hitems
  · have hsection : fields = ⟨[("stone", .short 1), ("dirt", .short 2)]⟩ := by
      cases hfields
      rfl
    subst hsection
    exact ⟨[1, 2], rfl, by decide⟩
  -- There is no section of items.
  · cases List.mem_singleton.1 hitems
    cases hfields

theorem readClipboard_same_turnedFile :
    Agree (fun c c' => c.same c' = true) ((turnedFile id).readClipboard .empty)
      ((turnedFile List.reverse).readClipboard .empty) ∧
    Compound.same (Id.run ((turnedFields id).rewriteIds fun _ id => pure (id + 1)))
      (Id.run ((turnedFields List.reverse).rewriteIds fun _ id => pure (id + 1))) = true := by
  have hbuilt := built_turnedFields (.inl rfl)
  have hbuilt' := built_turnedFields (.inr rfl)
  have hfields : (turnedFields id).same (turnedFields List.reverse) = true := by cbv
  have hfiles : (turnedFile id).same (turnedFile List.reverse) = true :=
    TagFile.same_iff.2 ⟨rfl, Tag.same_compound_iff.2 hfields⟩
  exact ⟨TagFile.readClipboard_same.1 .empty _ _ hbuilt hbuilt' hfiles mapsApart_turnedFile,
    TagFile.readClipboard_same.2 (fun _ id => id + 1) _ _ hbuilt hbuilt' hfields⟩

end VoxelSchematic
