import VoxelSchematic.Proofs.Schematic.RoundTrip
import VoxelSchematic.Proofs.Wire.Depth

/-!
# What a schematic is made of

`Clipboard.FieldValue` lists what can stand in a field of a schematic that is written: something
small, the records, or names from the registry. Whatever the wire format demands of the whole
schematic, it therefore demands of the records in it, and of the names.
-/

namespace VoxelSchematic

open Schematic Wire

namespace Clipboard

variable {c : Clipboard} {t : RemapTable} {tag : Tag}

/-! ## What stands in the fields -/

/-- The records of the tile entities and of the entities. -/
def records (c : Clipboard) : List Compound :=
  c.tileEntityRecords ++ c.entities.toList.map Entity.record

/-- All trees of the clipboard have been put together by the operations on lists and compounds. -/
structure Built (c : Clipboard) : Prop where
  cells : ∀ cell ∈ c.cells, ∀ tree, cell.tree = some tree → Tag.Built (.compound tree)
  entities : ∀ e ∈ c.entities, ∀ tree, e.tree = some tree → Tag.Built (.compound tree)

theorem Built.distinct (h : c.Built) : c.Distinct :=
  ⟨fun cell hcell tree htree => (Tag.regular_compound_iff.1 (h.cells cell hcell tree htree).regular).1,
    fun e he tree htree => (Tag.regular_compound_iff.1 (h.entities e he tree htree).regular).1⟩

theorem built_int (v : Int32) : Tag.Built (.int v) := .leaf nofun nofun

theorem built_string (text : String) : Tag.Built (.string text) := .leaf nofun nofun

theorem built_tileEntityRecord {tree : Compound} (place : BlockPos)
    (h : Tag.Built (.compound tree)) : Tag.Built (.compound (tileEntityRecord place tree)) := by
  rw [tileEntityRecord_eq]
  exact (((h.insert "id" (built_string _)).insert "x" (built_int _)).insert "y"
    (built_int _)).insert "z" (built_int _)

theorem built_record {e : Entity} (h : ∀ tree, e.tree = some tree → Tag.Built (.compound tree)) :
    Tag.Built (.compound e.record) := by
  have hown : Tag.Built (.compound (e.tree.getD .empty)) := by
    cases htree : e.tree with
    | none => exact .empty
    | some tree => exact h tree htree
  have herased : Tag.Built (.compound e.ownFields) := ((hown.erase "id").erase "Pos").erase "Rotation"
  rw [Entity.record_eq]
  exact ((herased.insert "id" (built_string _)).insert "Pos" (.ofDoubles _)).insert "Rotation"
    (.ofFloats _)

theorem Built.record (h : c.Built) : ∀ record ∈ c.records, Tag.Built (.compound record) := by
  intro record hrecord
  rcases List.mem_append.1 hrecord with htile | hentity
  · rcases List.mem_filterMap.1 htile with ⟨⟨cell, i⟩, hcell, hmade⟩
    rcases Option.map_eq_some_iff.1 hmade with ⟨tree, htree, rfl⟩
    exact built_tileEntityRecord _
      (h.cells cell (Array.mem_toList_iff.1 (List.fst_mem_of_mem_zipIdx hcell)) tree htree)
  · rcases List.mem_map.1 hentity with ⟨e, he, rfl⟩
    exact built_record (h.entities e (Array.mem_toList_iff.1 he))

/-- What can stand in a field of a schematic: something small, a list of records, or names. -/
inductive FieldValue (c : Clipboard) (t : RemapTable) : Tag → Prop
  | leaf {tag : Tag} : tag.kind ≠ .list → tag.kind ≠ .compound → tag.kind ≠ .terminator →
      tag.count ≤ c.region.volume → tag.TextsWithin maxTextBytes → FieldValue c t tag
  | records {records : List Compound} : (∀ record ∈ records, record ∈ c.records) →
      records.length ≤ max c.region.volume c.entities.size →
      FieldValue c t (.list (TagList.ofCompounds records))
  | names (kind : IdKind) : FieldValue c t (.compound (RemapTable.toSection (t.side kind)))

theorem length_tileEntityRecords_le (c : Clipboard) :
    c.tileEntityRecords.length ≤ c.region.volume := by
  calc
    c.tileEntityRecords.length ≤ c.cells.toList.zipIdx.length := List.length_filterMap_le _ _
    _ = c.region.volume := by rw [List.length_zipIdx, Array.length_toList, c.size_cells]

theorem fieldValue_optionalPlane {key : String} {values : Array UInt8}
    {pack : Array UInt8 → Array UInt8} (hsize : (pack values).size ≤ c.region.volume)
    {entry : String × Tag} (h : entry ∈ optionalPlane key values pack) : FieldValue c t entry.2 := by
  unfold optionalPlane at h
  split at h
  · rw [List.mem_singleton.1 h]
    exact .leaf nofun nofun nofun hsize trivial
  · exact absurd h List.not_mem_nil

theorem size_ofValues_le (values : Array UInt8) :
    (NibblePlane.ofValues values).size ≤ values.size := by
  rw [NibblePlane.size_ofValues]
  omega

/-- Every field of a schematic that is written holds one of these. -/
theorem fieldValue_of_mem {entry : String × Tag} (h : entry ∈ c.fieldList t) :
    FieldValue c t entry.2 := by
  have hbytes : ∀ f : Cell → UInt8, (c.cells.map f).size = c.region.volume := by
    intro f
    rw [Array.size_map, c.size_cells]
  have hplane : ∀ f : Cell → UInt8, FieldValue c t (.byteArray (c.cells.map f)) :=
    fun f => .leaf nofun nofun nofun (Nat.le_of_eq (hbytes f)) trivial
  have hside : ∀ size : UInt32, FieldValue c t (sideTag size) :=
    fun size => .leaf nofun nofun nofun (Nat.zero_le _) trivial
  have hint : ∀ v : Int32, FieldValue c t (.int v) :=
    fun v => .leaf nofun nofun nofun (Nat.zero_le _) trivial
  have halpha : alpha.utf8ByteSize ≤ maxTextBytes := by decide
  have hmaterials : FieldValue c t (.string alpha) :=
    .leaf nofun nofun nofun (Nat.zero_le _) halpha
  have htiles : FieldValue c t (.list (TagList.ofCompounds c.tileEntityRecords)) :=
    .records (fun record hrecord => List.mem_append_left _ hrecord)
      (Nat.le_trans c.length_tileEntityRecords_le (Nat.le_max_left _ _))
  have hentities : FieldValue c t (.list (TagList.ofCompounds (c.entities.toList.map Entity.record))) :=
    .records (fun record hrecord => List.mem_append_right _ hrecord) (by simp)
  have hhigh : ∀ entry ∈ optionalPlane Field.extraData (c.cells.map Cell.highData) id,
      FieldValue c t entry.2 :=
    fun entry => fieldValue_optionalPlane (Nat.le_of_eq (hbytes Cell.highData))
  have hadds : ∀ entry ∈ optionalPlane Field.addBlocks (c.cells.map Cell.highId) NibblePlane.ofValues,
      FieldValue c t entry.2 :=
    fun entry => fieldValue_optionalPlane
      (Nat.le_trans (size_ofValues_le _) (Nat.le_of_eq (hbytes Cell.highId)))
  have hall : ∀ entry ∈ c.fieldList t, FieldValue c t entry.2 := by
    simp only [fieldList, Field.origin, Field.offset, List.zip_cons_cons, List.zip_nil_right,
      List.forall_mem_append, List.forall_mem_cons, List.not_mem_nil, IsEmpty.forall_iff,
      implies_true, and_true, and_assoc]
    exact ⟨hside _, hside _, hside _, hmaterials, hint _, hint _, hint _, hint _, hint _, hint _,
      hplane _, hplane _, hhigh, hadds, htiles, hentities, .names .block, .names .item⟩
  exact hall entry h

/-! ## What the wire format demands of them -/

section

variable {n : Nat}

theorem toSection_mk (table : IdTable) : RemapTable.toSection table =
    ⟨table.pairs.map fun entry => (entry.1, .short entry.2.toInt16)⟩ := by
  rw [← RemapTable.toSection_entries]

theorem FieldValue.built (h : FieldValue c t tag) (built : c.Built) : tag.Built := by
  cases h with
  | leaf hlist hcompound _ _ _ => exact .leaf hlist hcompound
  | records hrecords _ =>
      exact .ofCompounds fun record hrecord => built.record record (hrecords record hrecord)
  | names kind =>
      refine Tag.built_insertMany .empty fun entry hentry => ?_
      rcases List.mem_map.1 hentry with ⟨pair, -, rfl⟩
      exact .leaf nofun nofun

theorem built_fields (t : RemapTable) (built : c.Built) : Tag.Built (.compound (c.fields t)) :=
  Tag.built_insertMany .empty fun _ hentry => (fieldValue_of_mem hentry).built built

theorem FieldValue.storable (h : FieldValue c t tag) (volume : c.region.volume < Reader.countLimit)
    (entities : c.entities.size < Reader.countLimit)
    (records : ∀ record ∈ c.records, Storable (.compound record)) : Storable tag := by
  cases h with
  | leaf hlist hcompound _ hcount _ =>
      exact storable_leaf hlist hcompound (Nat.lt_of_le_of_lt hcount volume)
  | records hrecords hlength =>
      refine storable_ofCompounds ?_ fun record hrecord => records record (hrecords record hrecord)
      exact Nat.lt_of_le_of_lt hlength (Nat.max_lt.2 ⟨volume, entities⟩)
  | names kind =>
      rw [toSection_mk]
      refine storable_compound (fun entry hentry => ?_) fun entry hentry => ?_
      · rcases List.mem_map.1 hentry with ⟨pair, -, rfl⟩
        nofun
      · rcases List.mem_map.1 hentry with ⟨pair, -, rfl⟩
        exact storable_leaf nofun nofun Reader.countLimit_pos

theorem FieldValue.kind_ne (h : FieldValue c t tag) : tag.kind ≠ .terminator := by
  cases h with
  | leaf _ _ hterminator _ _ => exact hterminator
  | records _ _ => nofun
  | names _ => nofun

theorem storable_fields (t : RemapTable) (volume : c.region.volume < Reader.countLimit)
    (entities : c.entities.size < Reader.countLimit)
    (records : ∀ record ∈ c.records, Storable (.compound record)) :
    Storable (.compound (c.fields t)) := by
  rw [fields_mk]
  exact storable_compound (fun entry hentry => (fieldValue_of_mem hentry).kind_ne)
    fun entry hentry => (fieldValue_of_mem hentry).storable volume entities records

theorem FieldValue.depth_le (h : FieldValue c t tag)
    (records : ∀ record ∈ c.records, Tag.depth (.compound record) ≤ n) : tag.depth ≤ n + 1 := by
  cases h with
  | leaf hlist hcompound _ _ _ =>
      rw [Tag.depth_eq_zero hlist hcompound]
      exact Nat.zero_le _
  | records hrecords _ =>
      exact Tag.depth_ofCompounds_le_succ_iff.2 fun record hrecord =>
        records record (hrecords record hrecord)
  | names kind =>
      rw [toSection_mk]
      refine Tag.depth_compound_le_succ_iff.2 fun entry hentry => ?_
      rcases List.mem_map.1 hentry with ⟨pair, -, rfl⟩
      exact Nat.zero_le _

/-- A schematic has two levels above those of its records. -/
theorem depth_fields_le_iff : Tag.depth (.compound (c.fields t)) ≤ n + 2 ↔
    ∀ record ∈ c.records, Tag.depth (.compound record) ≤ n := by
  rw [fields_mk, Tag.depth_compound_le_succ_iff]
  constructor
  · intro hentries record hrecord
    -- Each record stands in one of the two lists, below the list and the root.
    have hlist : ∀ (key : String) {records : List Compound},
        (key, Tag.list (TagList.ofCompounds records)) ∈ c.fieldList t → record ∈ records →
          Tag.depth (.compound record) ≤ n := by
      intro key records hentry hrecord
      exact Tag.depth_ofCompounds_le_succ_iff.1 (hentries _ hentry) record hrecord
    rcases List.mem_append.1 hrecord with htile | hentity
    · exact hlist Field.tileEntities (by simp [fieldList]) htile
    · exact hlist Field.entities (by simp [fieldList]) hentity
  · intro records entry hentry
    exact (fieldValue_of_mem hentry).depth_le records

theorem FieldValue.texts (h : FieldValue c t tag)
    (records : ∀ record ∈ c.records, Tag.Everywhere (Tag.TextsWithin maxTextBytes) (.compound record))
    (names : ∀ kind, ∀ pair ∈ (t.side kind).pairs, pair.1.utf8ByteSize ≤ maxTextBytes) :
    tag.Everywhere (Tag.TextsWithin maxTextBytes) := by
  cases h with
  | leaf hlist hcompound _ _ htexts =>
      exact (Tag.everywhere_leaf (Tag.nodes_eq hlist hcompound)).2 htexts
  | records hrecords _ =>
      exact Tag.everywhere_ofCompounds.2
        ⟨trivial, fun record hrecord => records record (hrecords record hrecord)⟩
  | names kind =>
      rw [toSection_mk]
      refine Tag.everywhere_compound.2 ⟨fun key hkey => ?_, fun entry hentry => ?_⟩
      · rw [OrderedMap.keys, List.map_map] at hkey
        rcases List.mem_map.1 hkey with ⟨pair, hpair, rfl⟩
        exact names kind pair hpair
      · rcases List.mem_map.1 hentry with ⟨pair, -, rfl⟩
        exact (Tag.everywhere_leaf rfl).2 trivial

/-- Besides the texts of the records and the names, a schematic has short texts only. -/
theorem texts_fields
    (records : ∀ record ∈ c.records, Tag.Everywhere (Tag.TextsWithin maxTextBytes) (.compound record))
    (names : ∀ kind, ∀ pair ∈ (t.side kind).pairs, pair.1.utf8ByteSize ≤ maxTextBytes) :
    Tag.Everywhere (Tag.TextsWithin maxTextBytes) (.compound (c.fields t)) := by
  have hkeys : ∀ key ∈ allNames, key.utf8ByteSize ≤ maxTextBytes := by decide
  rw [fields_mk]
  refine Tag.everywhere_compound.2 ⟨fun key hkey => ?_, fun entry hentry => ?_⟩
  · exact hkeys key ((keys_fieldList_sublist c t).subset hkey)
  · exact (fieldValue_of_mem hentry).texts records names

end

end Clipboard

end VoxelSchematic
