import VoxelSchematic.Proofs.Schematic.Places

/-!
# The places of a tree are apart

* `face?_settle_of_mem` and `face?_settle_of_not_mem` say what the paths of a tree lead to when
  numbers have been put into places.
* `surveyed_tree` says that the places of a tree are apart from each other and that each leads to
  its number. So no number is shown to a visitor twice, and none is settled twice.
-/

namespace VoxelSchematic

open IdField

/-! ## Numbers -/

/-- The high sixteen bits of an int. -/
def highBits (v : Int32) : UInt32 := v.toUInt32 >>> 16

theorem getElem_withLowBits {v : Int32} {id : UInt16} {i : Nat} (hi : i < 32) :
    (withLowBits v id).toBitVec[i] = if h : i < 16 then id.toBitVec[i] else v.toBitVec[i] := by
  have hmask : ∀ (i : Nat) (hi : i < 32), (0xFFFF0000 : UInt32).toBitVec[i] = decide (16 ≤ i) := by
    decide
  have hword : (withLowBits v id).toBitVec =
      (v.toBitVec &&& (0xFFFF0000 : UInt32).toBitVec) ||| id.toBitVec.setWidth 32 := rfl
  simp only [hword, BitVec.getElem_or, BitVec.getElem_and, hmask i hi, BitVec.getElem_setWidth]
  by_cases h : i < 16
  · simp [h, Nat.not_le.2 h]
  · simp [h, Nat.not_lt.1 h]

theorem lowBits_withLowBits (v : Int32) (id : UInt16) : lowBits (withLowBits v id) = id := by
  apply UInt16.toBitVec_inj.1
  apply BitVec.eq_of_getElem_eq
  intro i hi
  have hbound : i < 32 := Nat.lt_trans hi (by decide)
  have hword : (lowBits (withLowBits v id)).toBitVec = (withLowBits v id).toBitVec.setWidth 16 := rfl
  simp [hword, BitVec.getLsbD_eq_getElem hbound, getElem_withLowBits hbound, hi]

theorem highBits_withLowBits (v : Int32) (id : UInt16) :
    highBits (withLowBits v id) = highBits v := by
  have hword : ∀ v, (highBits v).toBitVec = v.toBitVec >>> 16 := fun v => rfl
  apply UInt32.toBitVec_inj.1
  rw [hword, hword]
  apply BitVec.eq_of_getElem_eq
  intro i hi
  by_cases h : 16 + i < 32
  · simp [BitVec.getLsbD_eq_getElem h, getElem_withLowBits h]
  · simp [BitVec.getLsbD_of_ge _ _ (Nat.not_lt.1 h)]

theorem withLowBits_withLowBits (v : Int32) (id other : UInt16) :
    withLowBits (withLowBits v id) other = withLowBits v other := by
  apply Int32.toBitVec_inj.1
  apply BitVec.eq_of_getElem_eq
  intro i hi
  by_cases h : i < 16
  · simp [getElem_withLowBits hi, h]
  · simp [getElem_withLowBits hi, h]

namespace Tag

variable {tag : Tag} {id other : UInt16}

theorem rim_withIdNumber (tag : Tag) : (tag.withIdNumber id).rim = tag.rim.withIdNumber id := by
  cases tag <;> rfl

theorem children_withIdNumber (tag : Tag) : (tag.withIdNumber id).children = tag.children := by
  cases tag <;> rfl

theorem idNumber?_withIdNumber (h : tag.idNumber?.isSome) :
    (tag.withIdNumber id).idNumber? = some id := by
  cases tag with
  | short v => simp [withIdNumber, idNumber?]
  | int v => exact congrArg some (lowBits_withLowBits v id)
  | _ => cases h

theorem withIdNumber_withIdNumber (tag : Tag) :
    (tag.withIdNumber id).withIdNumber other = tag.withIdNumber other := by
  cases tag with
  | int v => exact congrArg Tag.int (withLowBits_withLowBits v id other)
  | _ => rfl

theorem withIdNumber_self (h : tag.idNumber? = some id) : tag.withIdNumber id = tag := by
  cases tag with
  | short v =>
      cases h
      simp [withIdNumber]
  | int v =>
      cases h
      exact congrArg Tag.int (withLowBits_lowBits v)
  | _ => rfl

end Tag

namespace IdField

/-! ## What the paths of a settled tree lead to -/

section

variable {placed : List IdPlace} {place : IdPlace} {tag : Tag} {path : List Nat}

theorem face?_settle_of_not_mem (h : path ∉ placed.map IdPlace.path) :
    (settle placed tag).face? path = tag.face? path := by
  induction placed generalizing tag with
  | nil => rfl
  | cons place rest ih =>
      rcases not_or.1 (mt List.mem_cons.2 h) with ⟨hne, hrest⟩
      calc
        (settle (place :: rest) tag).face? path =
            (tag.amendAt (Tag.withIdNumber place.id) place.path).face? path := ih hrest
        _ = tag.face? path := Tag.face?_amendAt_of_ne Tag.children_withIdNumber (Ne.symm hne)

theorem face?_settle_of_mem (hnodup : (placed.map IdPlace.path).Nodup) (h : place ∈ placed) :
    (settle placed tag).face? place.path = (tag.face? place.path).map (Tag.withIdNumber place.id) := by
  induction placed generalizing tag with
  | nil => cases h
  | cons first rest ih =>
      rcases List.nodup_cons.1 hnodup with ⟨hfirst, hrest⟩
      -- The place is the first one, which the others leave alone, or one of the others.
      rcases List.mem_cons.1 h with rfl | hbehind
      · calc
          (settle (place :: rest) tag).face? place.path =
              (tag.amendAt (Tag.withIdNumber place.id) place.path).face? place.path :=
            face?_settle_of_not_mem hfirst
          _ = (tag.face? place.path).map (Tag.withIdNumber place.id) :=
            Tag.face?_amendAt_self Tag.rim_withIdNumber
      · have hne : first.path ≠ place.path :=
          fun hsame => hfirst (hsame ▸ List.mem_map_of_mem hbehind)
        calc
          (settle (first :: rest) tag).face? place.path =
              ((tag.amendAt (Tag.withIdNumber first.id) first.path).face? place.path).map
                (Tag.withIdNumber place.id) := ih hrest hbehind
          _ = (tag.face? place.path).map (Tag.withIdNumber place.id) := by
            rw [Tag.face?_amendAt_of_ne Tag.children_withIdNumber hne]

end

/-! ## The places of a tree are apart, and each has its number -/

/-- The places are apart from each other, and each leads to its number. -/
structure Surveyed (places : List IdPlace) (tag : Tag) : Prop where
  numbers : ∀ place ∈ places, (tag.face? place.path).bind Tag.idNumber? = some place.id
  apart : (places.map IdPlace.path).Nodup

/-- As `Surveyed`, for places in a row of tags. -/
structure SurveyedRow (places : List IdPlace) (tags : List Tag) : Prop where
  numbers : ∀ place ∈ places, ∃ i path tag, place.path = i :: path ∧ tags[i]? = some tag ∧
    (tag.face? path).bind Tag.idNumber? = some place.id
  apart : (places.map IdPlace.path).Nodup

/-- As `Surveyed`, for places in the value of a field. -/
def SurveyedAt (places : List IdPlace) (fields : Compound) (key : String) : Prop :=
  places = [] ∨ ∃ tag, fields.get? key = some tag ∧ Surveyed places tag

section

variable {places others : List IdPlace} {tag : Tag} {tags : List Tag} {fields : Compound}
  {key other : String} {i : Nat}

theorem SurveyedRow.of_children (h : SurveyedRow places tag.children) : Surveyed places tag := by
  refine ⟨fun place hplace => ?_, h.apart⟩
  rcases h.numbers place hplace with ⟨i, path, child, hpath, hchild, hnumber⟩
  rw [hpath, Tag.face?, hchild]
  exact hnumber

theorem surveyedRow_nil : SurveyedRow [] tags := ⟨List.forall_mem_nil _, List.nodup_nil⟩

theorem nextPath_injective : Function.Injective IdPlace.nextPath := by
  intro path other h
  cases path with
  | nil =>
      cases other with
      | nil => rfl
      | cons j other => cases h
  | cons i path =>
      cases other with
      | nil => cases h
      | cons j other =>
          rcases List.cons.inj h with ⟨hhead, htail⟩
          rw [Nat.succ.inj hhead, htail]

theorem SurveyedRow.next (h : SurveyedRow places tags) :
    SurveyedRow (places.map IdPlace.next) (tag :: tags) := by
  refine ⟨fun moved hmoved => ?_, ?_⟩
  · rcases List.mem_map.1 hmoved with ⟨place, hplace, rfl⟩
    rcases h.numbers place hplace with ⟨i, path, child, hpath, hchild, hnumber⟩
    exact ⟨i + 1, path, child, congrArg IdPlace.nextPath hpath, hchild, hnumber⟩
  · have hpaths : (places.map IdPlace.next).map IdPlace.path =
        (places.map IdPlace.path).map IdPlace.nextPath := by
      simp [IdPlace.next]
    rw [hpaths]
    exact h.apart.map nextPath_injective

theorem Surveyed.below (h : Surveyed places tag) (htag : tags[i]? = some tag) :
    SurveyedRow (places.map (IdPlace.below i)) tags := by
  refine ⟨fun moved hmoved => ?_, ?_⟩
  · rcases List.mem_map.1 hmoved with ⟨place, hplace, rfl⟩
    exact ⟨i, place.path, tag, rfl, htag, h.numbers place hplace⟩
  · have hpaths : (places.map (IdPlace.below i)).map IdPlace.path =
        (places.map IdPlace.path).map (List.cons i) := by
      simp [IdPlace.below]
    rw [hpaths]
    exact h.apart.map List.cons_injective

theorem SurveyedRow.append (h : SurveyedRow places tags) (hothers : SurveyedRow others tags)
    (hne : ∀ place ∈ places, ∀ other ∈ others, place.path ≠ other.path) :
    SurveyedRow (places ++ others) tags := by
  refine ⟨List.forall_mem_append.2 ⟨h.numbers, hothers.numbers⟩, ?_⟩
  rw [List.map_append]
  refine List.nodup_append.2 ⟨h.apart, hothers.apart, ?_⟩
  intro path hpath other hother
  rcases List.mem_map.1 hpath with ⟨place, hplace, rfl⟩
  rcases List.mem_map.1 hother with ⟨otherPlace, hotherPlace, rfl⟩
  exact hne place hplace otherPlace hotherPlace

/-- The places of the first tag and those behind it. -/
theorem SurveyedRow.cons (h : Surveyed places tag) (hrest : SurveyedRow others tags) :
    SurveyedRow (places.map (IdPlace.below 0) ++ others.map IdPlace.next) (tag :: tags) := by
  refine (h.below rfl).append hrest.next fun place hplace other hother => ?_
  rcases List.mem_map.1 hplace with ⟨first, -, rfl⟩
  rcases List.mem_map.1 hother with ⟨behind, hbehind, rfl⟩
  rcases hrest.numbers behind hbehind with ⟨i, path, -, hpath, -⟩
  intro hsame
  have hheads : 0 :: first.path = (i + 1) :: path :=
    hsame.trans (congrArg IdPlace.nextPath hpath)
  exact absurd (List.cons.inj hheads).1 (Nat.succ_ne_zero i).symm

theorem surveyed_nil : Surveyed [] tag := ⟨List.forall_mem_nil _, List.nodup_nil⟩

theorem surveyed_placesOfNumber (kind : IdKind) (tag : Tag) :
    Surveyed (placesOfNumber kind tag) tag := by
  unfold placesOfNumber
  cases hnumber : tag.idNumber? with
  | none => exact surveyed_nil
  | some id =>
      have hface : (tag.face? []).bind Tag.idNumber? = some id := by
        rw [← hnumber]
        cases tag <;> rfl
      exact ⟨List.forall_mem_singleton.2 hface, List.nodup_singleton _⟩

theorem SurveyedAt.row (h : SurveyedAt places fields key) :
    SurveyedRow (atSlot fields key places) fields.values := by
  rcases h with rfl | ⟨tag, hget, hplaces⟩
  · exact surveyedRow_nil
  · rcases OrderedMap.slot?_of_get? hget with ⟨i, hslot, hentry⟩
    have hvalue : fields.values[i]? = some tag := by
      rw [OrderedMap.values, List.getElem?_map, hentry]
      rfl
    rw [atSlot, hslot]
    exact hplaces.below hvalue

/-- Places under different names are apart. -/
theorem SurveyedAt.ne (h : SurveyedAt places fields key) (hothers : SurveyedAt others fields other)
    (hkey : key ≠ other) : ∀ place ∈ atSlot fields key places,
      ∀ otherPlace ∈ atSlot fields other others, place.path ≠ otherPlace.path := by
  intro place hplace otherPlace hotherPlace hsame
  rcases List.mem_map.1 hplace with ⟨inner, hinner, rfl⟩
  rcases List.mem_map.1 hotherPlace with ⟨otherInner, hotherInner, rfl⟩
  -- A path begins with the slot of its field, if there is a field at all.
  rcases h with rfl | ⟨tag, hget, -⟩
  · cases hinner
  rcases hothers with rfl | ⟨otherTag, hotherGet, -⟩
  · cases hotherInner
  rcases OrderedMap.slot?_of_get? hget with ⟨i, hslot, -⟩
  rcases OrderedMap.slot?_of_get? hotherGet with ⟨j, hotherSlot, -⟩
  have hij : i = j := by
    have hheads := (List.cons.inj hsame).1
    rwa [hslot, hotherSlot] at hheads
  exact OrderedMap.slot?_ne_of_ne hslot hkey (hij ▸ hotherSlot)

theorem surveyedAt_cons_of_ne {entry : String × Tag} {rest : List (String × Tag)}
    (h : SurveyedAt places ⟨rest⟩ key) (hne : entry.1 ≠ key) :
    SurveyedAt places ⟨entry :: rest⟩ key := by
  rcases h with rfl | ⟨tag, hget, hplaces⟩
  · exact .inl rfl
  · refine .inr ⟨tag, ?_, hplaces⟩
    rw [OrderedMap.get?_cons, if_neg hne]
    exact hget

end

-- By the recursion of the places. Those of a field or an element begin with its position, so that
-- only places in the same child could meet, and these are apart by induction.
mutual

theorem surveyed_placesOfTree : ∀ tree : Compound, SurveyedRow (placesOfTree tree) tree.values
  | ⟨entries⟩ => by
      cases hkey : itemKey? ⟨entries⟩ with
      | some key =>
          rcases get?_isSome_of_itemKey? hkey with ⟨tag, hget⟩
          have hnames : key ≠ "tag" ∧ key ≠ "d" := by
            rcases eq_of_itemKey? hkey with rfl | rfl <;> decide
          have hown : SurveyedAt (placesOfNumber .item tag) ⟨entries⟩ key :=
            .inr ⟨tag, hget, surveyed_placesOfNumber .item tag⟩
          have htag := surveyed_placesOfNested "tag" entries
          have hd := surveyed_placesOfNested "d" entries
          have hnested := htag.row.append hd.row (htag.ne hd (by decide))
          simp only [placesOfTree, hkey, hget, Option.getD_some]
          refine hown.row.append hnested fun place hplace => ?_
          exact List.forall_mem_append.2 ⟨hown.ne htag hnames.1 place hplace,
            hown.ne hd hnames.2 place hplace⟩
      | none =>
          simp only [placesOfTree, hkey]
          exact surveyed_placesOfFields (isDoor ⟨entries⟩) entries

theorem surveyed_placesOfNested (key : String) : ∀ entries : List (String × Tag),
    SurveyedAt (placesOfNested key entries) ⟨entries⟩ key
  | [] => .inl rfl
  | (name, tag) :: rest => by
      have hrest := surveyed_placesOfNested key rest
      by_cases hname : name = key
      · subst hname
        cases tag with
        | compound inner =>
            have hinner := surveyed_placesOfTree inner
            rw [placesOfNested_cons_compound]
            exact .inr ⟨.compound inner, by rw [OrderedMap.get?_cons, if_pos rfl],
              SurveyedRow.of_children hinner⟩
        | _ => exact .inl (placesOfNested_cons_of_not_compound rfl)
      · rw [placesOfNested_cons_of_ne hname]
        exact surveyedAt_cons_of_ne hrest hname

theorem surveyed_placesOfFields (isDoor : Bool) : ∀ entries : List (String × Tag),
    SurveyedRow (placesOfFields isDoor entries) (entries.map Prod.snd)
  | [] => surveyedRow_nil
  | (key, tag) :: rest =>
      .cons (surveyed_placesOfValue (doorField? isDoor key) tag) (surveyed_placesOfFields isDoor rest)

theorem surveyed_placesOfValue (held : Option IdKind) : ∀ tag : Tag,
    Surveyed (placesOfValue held tag) tag
  | .int v => by
      cases held with
      | none => exact surveyed_nil
      | some kind => exact surveyed_placesOfNumber kind (.int v)
  | .compound inner => SurveyedRow.of_children (surveyed_placesOfTree inner)
  | .list ⟨_, items⟩ => SurveyedRow.of_children (surveyed_placesOfItems items)
  | .terminator => surveyed_nil
  | .byte _ => surveyed_nil
  | .short _ => surveyed_nil
  | .long _ => surveyed_nil
  | .float _ => surveyed_nil
  | .double _ => surveyed_nil
  | .byteArray _ => surveyed_nil
  | .string _ => surveyed_nil
  | .intArray _ => surveyed_nil
  | .longArray _ => surveyed_nil

theorem surveyed_placesOfItems : ∀ items : List Tag, SurveyedRow (placesOfItems items) items
  | [] => surveyedRow_nil
  | tag :: rest => by
      have hrest := surveyed_placesOfItems rest
      cases tag with
      | compound inner =>
          exact .cons (SurveyedRow.of_children (surveyed_placesOfTree inner)) hrest
      | _ => exact hrest.next

end

theorem surveyed_tree (tree : Compound) : Surveyed (placesOfTree tree) (.compound tree) :=
  SurveyedRow.of_children (surveyed_placesOfTree tree)

end IdField

end VoxelSchematic
