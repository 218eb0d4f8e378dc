import VoxelSchematic.Proofs.Schematic.Contents
import VoxelSchematic.Proofs.Schematic.Homogeneous
import VoxelSchematic.Proofs.Schematic.Saving
import VoxelSchematic.Proofs.Wire.LongTexts

/-!
# Texts of schematics that are written again

A tag that was read has short texts only, since the wire can state no others. Taking a schematic
apart and translating its numbers adds none, so all texts of a clipboard that was read are short.
If such a clipboard cannot be written, it is for a name from the registry.
-/

namespace VoxelSchematic

open Ieee Schematic Telling Wire

/-! ## Trees with short texts -/

namespace Tag

variable {tag : Tag} {fields : Compound} {key s : String}

/-- The texts of a tag, and all names in it, are short enough for their length fields. -/
def Short (tag : Tag) : Prop := tag.Everywhere (TextsWithin maxTextBytes)

theorem short_list_iff {element : TagType} {items : List Tag} :
    Short (.list ⟨element, items⟩) ↔ ∀ tag ∈ items, tag.Short := by
  simp [Short, everywhere_list, TextsWithin]

theorem short_compound_iff : Short (.compound fields) ↔
    ∀ entry ∈ fields.entries, entry.1.utf8ByteSize ≤ maxTextBytes ∧ entry.2.Short := by
  rcases fields with ⟨entries⟩
  simp only [Short, everywhere_compound, TextsWithin, OrderedMap.keys, List.forall_mem_map]
  exact forall₂_and.symm

theorem short_string_iff : Short (.string s) ↔ s.utf8ByteSize ≤ maxTextBytes :=
  everywhere_leaf rfl

theorem short_short (v : Int16) : Short (.short v) := (everywhere_leaf rfl).2 trivial

theorem short_int (v : Int32) : Short (.int v) := (everywhere_leaf rfl).2 trivial

theorem short_ofDoubles (values : List Binary64) : Short (.list (TagList.ofDoubles values)) :=
  short_list_iff.2 (List.forall_mem_map.2 fun _ _ => (everywhere_leaf rfl).2 trivial)

theorem short_ofFloats (values : List Binary32) : Short (.list (TagList.ofFloats values)) :=
  short_list_iff.2 (List.forall_mem_map.2 fun _ _ => (everywhere_leaf rfl).2 trivial)

theorem Short.of_get? {tag : Tag} (h : Short (.compound fields))
    (hget : fields.get? key = some tag) : tag.Short :=
  (short_compound_iff.1 h _ (OrderedMap.mem_of_get? hget)).2

theorem Short.erase (h : Short (.compound fields)) (key : String) :
    Short (.compound (fields.erase key)) :=
  short_compound_iff.2 fun entry hentry =>
    short_compound_iff.1 h entry (OrderedMap.mem_of_mem_entries_erase hentry)

theorem Short.insert {tag : Tag} (h : Short (.compound fields))
    (hkey : key.utf8ByteSize ≤ maxTextBytes) (htag : tag.Short) :
    Short (.compound (fields.insert key tag)) := by
  refine short_compound_iff.2 fun entry hentry => ?_
  rcases OrderedMap.mem_entries_insert hentry with hold | rfl
  · exact short_compound_iff.1 h entry hold
  · exact ⟨hkey, htag⟩

theorem Short.of_mem_compounds {records : TagList} (h : Short (.list records)) {record : Compound}
    (hrecord : record ∈ records.compounds) : Short (.compound record) := by
  rcases List.mem_filterMap.1 hrecord with ⟨tag, htag, hcompound⟩
  cases tag with
  | compound fields =>
      cases hcompound
      exact short_list_iff.1 h _ htag
  | _ => cases hcompound

theorem Short.getString? (h : Short (.compound fields)) (hget : fields.getString? key = some s) :
    s.utf8ByteSize ≤ maxTextBytes := by
  rcases Compound.getAs?_eq_some_iff.1 hget with ⟨tag, htag, hstring⟩
  cases tag with
  | string text =>
      cases hstring
      exact short_string_iff.1 (h.of_get? htag)
  | _ => cases hstring

/-- Texts can be seen without the values of numbers. -/
theorem short_blank_iff : tag.blank.Short ↔ tag.Short := by
  induction tag using byLayers with
  | layer tag ih =>
      cases tag with
      | list l =>
          rcases l with ⟨element, items⟩
          rw [blank, blankItems_eq_map, short_list_iff, short_list_iff, List.forall_mem_map]
          exact forall₂_congr fun item hitem => ih item hitem
      | compound fields =>
          rcases fields with ⟨entries⟩
          rw [blank, blankFields_eq_map, short_compound_iff, short_compound_iff,
            List.forall_mem_map]
          exact forall₂_congr fun entry hentry =>
            and_congr Iff.rfl (ih entry.2 (List.mem_map_of_mem hentry))
      | short v => exact iff_of_true (short_short 0) (short_short v)
      | int v => exact iff_of_true (short_int 0) (short_int v)
      | _ => exact Iff.rfl

/-! ## The texts that are written -/

theorem mem_texts_list_iff {element : TagType} {items : List Tag} :
    s ∈ texts (.list ⟨element, items⟩) ↔ ∃ tag ∈ items, s ∈ tag.texts := by
  rw [texts]
  induction items with
  | nil => simp [textsOfItems]
  | cons tag rest ih => simp [textsOfItems, ih]

theorem mem_texts_compound_iff : s ∈ texts (.compound fields) ↔
    ∃ entry ∈ fields.entries, s ∈ entry.2.namedTexts entry.1 := by
  rcases fields with ⟨entries⟩
  rw [texts]
  induction entries with
  | nil => simp [textsOfFields]
  | cons entry rest ih =>
      rcases entry with ⟨key, tag⟩
      simp [textsOfFields, namedTexts, ih, or_assoc]

theorem eq_or_mem_texts (h : s ∈ tag.namedTexts key) : s = key ∨ s ∈ tag.texts := by
  rcases List.mem_append.1 h with hkey | htag
  · refine .inl ?_
    split at hkey
    · exact absurd hkey List.not_mem_nil
    · exact List.mem_singleton.1 hkey
  · exact .inr htag

theorem Short.texts (h : tag.Short) : ∀ s ∈ tag.texts, s.utf8ByteSize ≤ maxTextBytes := by
  induction tag using byLayers with
  | layer tag ih =>
      intro s hs
      cases tag with
      | string text =>
          rw [List.mem_singleton.1 hs]
          exact short_string_iff.1 h
      | list l =>
          rcases mem_texts_list_iff.1 hs with ⟨item, hitem, hs⟩
          exact ih item hitem (short_list_iff.1 h item hitem) s hs
      | compound fields =>
          rcases mem_texts_compound_iff.1 hs with ⟨entry, hentry, hs⟩
          have hshort := short_compound_iff.1 h entry hentry
          rcases eq_or_mem_texts hs with rfl | hs
          · exact hshort.1
          · exact ih entry.2 (List.mem_map_of_mem hentry) hshort.2 s hs
      | _ => exact absurd hs List.not_mem_nil

end Tag

/-! ## What was read -/

section

variable {input rest : List UInt8} {name : String} {root : Tag} {file : TagFile}

theorem Wire.short_of_decode (read : decode input = .ok (name, root) rest) : root.Short := by
  rcases decode_eq_ok_iff.1 read with ⟨raw, htranscript, rfl⟩
  rcases transcribe_eq_ok_iff.1 htranscript with ⟨hspelled, -⟩
  rcases everywhere_legible_iff.1 hspelled.settled.legible with ⟨-, -, -, -, htexts⟩
  exact htexts

theorem Wire.built_of_decode (read : decode input = .ok (name, root) rest) : root.Built := by
  rcases decode_eq_ok_iff.1 read with ⟨raw, -, rfl⟩
  exact Tag.built_iff_regular.2 ⟨uniform_of_decode read, Tag.distinct_settled raw⟩

/-- A file was read from some bytes, whether it was compressed or not. -/
theorem TagFile.decode_of_ofEither {bytes : Array UInt8} (read : ofEither bytes = .ok file) :
    ∃ input rest, decode input = .ok (file.name, file.root) rest := by
  have hplain : ∀ bytes, ofBytes bytes = .ok file →
      ∃ input rest, decode input = .ok (file.name, file.root) rest := by
    intro bytes hread
    unfold ofBytes at hread
    cases hdecode : decode bytes.toList with
    | ok found rest =>
        rw [hdecode] at hread
        cases hread
        exact ⟨_, rest, hdecode⟩
    | error fault rest =>
        rw [hdecode] at hread
        cases hread
  unfold ofEither at read
  split at read
  · exact hplain _ (Outcome.except_mapError_eq_ok_iff.1 read)
  · exact hplain _ read

end

/-! ## Clipboards with short texts -/

section

variable {tree : Compound} {records : TagList} {d : Decoded}

theorem short_anchor {record : Compound} (h : Tag.Short (.compound record)) :
    Tag.Short (.compound (Decoded.anchor record).2) := by
  have hown := ((h.erase "x").erase "y").erase "z"
  simp only [Decoded.anchor]
  split
  · exact hown.erase "id"
  · exact hown

/-- A translation changes numbers only. -/
theorem short_translated (conversion : Conversion) (h : Tag.Short (.compound tree)) :
    Tag.Short (.compound (Decoded.translated conversion tree)) := by
  unfold Decoded.translated
  split
  · have hblank := IdField.blank_settle (List.zipWith IdPlace.answered tree.idPlaces
      (tree.heldIds.map fun held => conversion.translate held.1 held.2)) (.compound tree)
    rw [Compound.settle_compound] at hblank
    rw [Compound.convertIds_eq, Compound.translateIds_eq, ← Tag.short_blank_iff, Compound.refilled,
      hblank, Tag.short_blank_iff]
    exact h
  · exact h

theorem short_nameText (h : Tag.Short (.compound tree)) :
    tree.nameText.utf8ByteSize ≤ maxTextBytes := by
  unfold Compound.nameText
  cases hid : tree.getString? "id" with
  | none => decide
  | some name => exact h.getString? hid

theorem short_tileEntityRecord (place : BlockPos) (h : Tag.Short (.compound tree)) :
    Tag.Short (.compound (tileEntityRecord place tree)) := by
  have hname : Tag.Short (.string tree.nameText) := Tag.short_string_iff.2 (short_nameText h)
  rw [tileEntityRecord_eq]
  exact (((h.insert (by decide) hname).insert (by decide) (Tag.short_int _)).insert (by decide)
    (Tag.short_int _)).insert (by decide) (Tag.short_int _)

theorem Entity.typeId_of_entity? {record : Compound} {e : Entity}
    (read : Decoded.entity? record = some e) : e.typeId = record.nameText := by
  unfold Decoded.entity? at read
  by_cases hname : ((Compound.getString? record "id").getD "").isEmpty = true
  · rw [if_pos hname] at read
    cases read
  · rw [if_neg hname] at read
    cases read
    rfl

/-- An entity that was read repeats texts of its record. -/
theorem short_record {record : Compound} {e : Entity} (h : Tag.Short (.compound record))
    (read : Decoded.entity? record = some e) : Tag.Short (.compound e.record) := by
  have hown : Tag.Short (.compound e.ownFields) := by
    rw [Entity.ownFields, Entity.getD_tree_of_entity? read]
    have hread := ((h.erase "id").erase "Pos").erase "Rotation"
    exact ((hread.erase "id").erase "Pos").erase "Rotation"
  have hname : Tag.Short (.string e.typeId) := by
    rw [Entity.typeId_of_entity? read]
    exact Tag.short_string_iff.2 (short_nameText h)
  rw [Entity.record_eq]
  exact ((hown.insert (by decide) hname).insert (by decide) (Tag.short_ofDoubles _)).insert
    (by decide) (Tag.short_ofFloats _)

theorem Decoded.Says.short_records (h : d.Says tree records) (short : Tag.Short (.compound tree)) :
    ∀ record ∈ d.toClipboard.records, Tag.Short (.compound record) := by
  intro record hrecord
  rcases List.mem_append.1 hrecord with htile | hentity
  · rcases List.mem_filterMap.1 htile with ⟨⟨cell, i⟩, hcell, hmade⟩
    rcases Option.map_eq_some_iff.1 hmade with ⟨own, hown, rfl⟩
    refine short_tileEntityRecord _ ?_
    have hmem := Array.mem_toList_iff.1 (List.fst_mem_of_mem_zipIdx hcell)
    rcases Array.mem_ofFn.1 hmem with ⟨k, rfl⟩
    have hplace : d.anchored[d.region.relativePosition k]? = some own := hown
    rw [h.anchored] at hplace
    rcases mem_of_getElem?_anchoredTrees hplace with ⟨source, hsource, rfl⟩
    exact short_translated _ (short_anchor ((short.of_get? h.listed).of_mem_compounds hsource))
  · rcases List.mem_map.1 hentity with ⟨e, he, rfl⟩
    have hread : e ∈ Decoded.entityList tree := by
      rw [← h.entities]
      exact List.mem_toArray.1 (Array.mem_toList_iff.1 he)
    unfold Decoded.entityList at hread
    split at hread
    next list hlist =>
      rcases List.mem_filterMap.1 hread with ⟨source, hsource, hmade⟩
      rcases Compound.getAs?_eq_some_iff.1 hlist with ⟨tag, hget, hfound⟩
      cases tag with
      | list l =>
          cases hfound
          exact short_record ((short.of_get? hget).of_mem_compounds hsource) hmade
      | _ => cases hfound
    next => exact absurd hread List.not_mem_nil

end

/-! ## What is written again -/

namespace Clipboard

variable {c : Clipboard} {t : RemapTable} {tag : Tag} {s : String}

/-- A text of a field is short, unless it is a name of a number. -/
theorem FieldValue.of_mem_texts (h : FieldValue c t tag)
    (records : ∀ record ∈ c.records, Tag.Short (.compound record)) (hs : s ∈ tag.texts) :
    s.utf8ByteSize ≤ maxTextBytes ∨ ∃ kind id, (s, id) ∈ (t.side kind).pairs := by
  cases h with
  | leaf hlist hcompound _ _ htexts =>
      have hshort : tag.Short := (Tag.everywhere_leaf (Tag.nodes_eq hlist hcompound)).2 htexts
      exact .inl (hshort.texts s hs)
  | records hrecords _ =>
      have hshort : ∀ record ∈ _, Tag.Short (.compound record) := fun record hrecord =>
        records record (hrecords record hrecord)
      exact .inl (Tag.Short.texts (Tag.short_list_iff.2 (List.forall_mem_map.2 hshort)) s hs)
  | names kind =>
      rw [toSection_mk] at hs
      rcases Tag.mem_texts_compound_iff.1 hs with ⟨entry, hentry, hs⟩
      rcases List.mem_map.1 hentry with ⟨⟨name, id⟩, hpair, rfl⟩
      rcases Tag.eq_or_mem_texts hs with rfl | hs
      · exact .inr ⟨kind, id, hpair⟩
      · exact absurd hs List.not_mem_nil

/-- A schematic with short texts in its records has short texts but for the names of numbers. -/
theorem of_mem_namedTexts (records : ∀ record ∈ c.records, Tag.Short (.compound record))
    (hs : s ∈ Tag.namedTexts rootName (.compound (c.fields t))) :
    s.utf8ByteSize ≤ maxTextBytes ∨ ∃ kind id, (s, id) ∈ (t.side kind).pairs := by
  have hkeys : ∀ key ∈ allNames, key.utf8ByteSize ≤ maxTextBytes := by decide
  rcases Tag.eq_or_mem_texts hs with rfl | hs
  · exact .inl (by decide)
  · rw [fields_mk] at hs
    rcases Tag.mem_texts_compound_iff.1 hs with ⟨entry, hentry, hs⟩
    rcases Tag.eq_or_mem_texts hs with rfl | hs
    · exact .inl (hkeys _ ((keys_fieldList_sublist c t).subset (List.mem_map_of_mem hentry)))
    · exact (fieldValue_of_mem hentry).of_mem_texts records hs

/-- The name of every number is written. -/
theorem mem_namedTexts_of_pair {kind : IdKind} {id : UInt16} (h : (s, id) ∈ (t.side kind).pairs) :
    s ∈ Tag.namedTexts rootName (.compound (c.fields t)) := by
  have hsection : s ∈ Tag.texts (.compound (RemapTable.toSection (t.side kind))) := by
    rw [toSection_mk]
    exact Tag.mem_texts_compound_iff.2
      ⟨_, List.mem_map_of_mem h, List.mem_append_left _ (List.mem_singleton.2 rfl)⟩
  have hfield :
      ∃ key, (key, Tag.compound (RemapTable.toSection (t.side kind))) ∈ c.fieldList t := by
    cases kind with
    | block =>
        refine ⟨Field.blockMapping, ?_⟩
        simp [fieldList, RemapTable.toSections, RemapTable.side]
    | item =>
        refine ⟨Field.itemMapping, ?_⟩
        simp [fieldList, RemapTable.toSections, RemapTable.side]
  rcases hfield with ⟨key, hfield⟩
  refine List.mem_append_right _ ?_
  rw [fields_mk]
  exact Tag.mem_texts_compound_iff.2 ⟨_, hfield, List.mem_append_right _ hsection⟩

end Clipboard

/-- Whatever is read can be written again as a schematic. What the schematic says in too long a text
is the name that the registry has for a number of the clipboard. -/
theorem TagFile.written_of_readClipboard {r : Registry} {bytes : Array UInt8} {file : TagFile}
    {c : Clipboard} {said said' : Array Notice} (hr : r.Built) (opened : ofEither bytes = .ok file)
    (read : file.readClipboard r said = .ok c said') :
    ∃ root, Yields (c.toFile r) ⟨rootName, root⟩ ∧ ∀ s, maxTextBytes < s.utf8ByteSize →
      (s ∈ root.namedTexts rootName ↔
        ∃ kind id, (kind, id) ∈ c.namedIds ∧ r.name? kind id = some s) := by
  rcases decode_of_ofEither opened with ⟨input, rest, hdecode⟩
  have hhanded := handedOut_of_readClipboard (built_of_decode hdecode) read
  rcases hhanded.yields_saved hr with ⟨t, hwritten, hrecords, -⟩
  rcases of_readClipboard read with ⟨d, _, tree, records, -, rfl, hsays, rfl⟩
  have hshort := hsays.short_records (short_of_decode hdecode)
  refine ⟨_, hwritten, fun s hlong => ⟨fun hs => ?_, ?_⟩⟩
  · rcases Clipboard.of_mem_namedTexts hshort hs with hfits | ⟨kind, id, hpair⟩
    · exact absurd hlong (Nat.not_lt.2 hfits)
    · rcases (hrecords kind).mem_pairs_iff.1 hpair with ⟨hname, hused⟩
      exact ⟨kind, id, hused, hname⟩
  · rintro ⟨kind, id, hused, hname⟩
    exact Clipboard.mem_namedTexts_of_pair ((hrecords kind).mem_pairs_iff.2 ⟨hname, hused⟩)

end VoxelSchematic
