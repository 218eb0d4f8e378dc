import VoxelSchematic.Proofs.OrderedMap
import VoxelSchematic.Proofs.Tag.Nodes

/-!
# Trees that the operations build

`Tag.Built` is the closure of the operations on lists and compounds: every tree that a caller can
put together. `Tag.built_iff_regular` says that these are exactly the regular trees.
-/

namespace VoxelSchematic.Tag

open Ieee

/-- A tree that can be put together by the operations on lists and compounds. -/
inductive Built : Tag → Prop
  | leaf {tag : Tag} : tag.kind ≠ .list → tag.kind ≠ .compound → Built tag
  | emptyList (element : TagType) : Built (.list (TagList.empty element))
  | ofItems {element : TagType} {items : List Tag} {l : TagList} :
      (∀ tag ∈ items, Built tag) → TagList.ofItems element items = .ok l → Built (.list l)
  | infer {items : List Tag} {l : TagList} :
      (∀ tag ∈ items, Built tag) → TagList.infer items = .ok l → Built (.list l)
  | ofCompounds {items : List Compound} :
      (∀ fields ∈ items, Built (.compound fields)) → Built (.list (TagList.ofCompounds items))
  | ofDoubles (values : List Binary64) : Built (.list (TagList.ofDoubles values))
  | ofFloats (values : List Binary32) : Built (.list (TagList.ofFloats values))
  | push {l l' : TagList} {tag : Tag} :
      Built (.list l) → Built tag → l.push tag = .ok l' → Built (.list l')
  | mapCompounds {l : TagList} {f : Compound → Compound} :
      Built (.list l) → (∀ fields, Tag.compound fields ∈ l.items → Built (.compound (f fields))) →
        Built (.list (l.mapCompounds f))
  | empty : Built (.compound .empty)
  | insert {fields : Compound} (key : String) {tag : Tag} :
      Built (.compound fields) → Built tag → Built (.compound (fields.insert key tag))
  | erase {fields : Compound} (key : String) :
      Built (.compound fields) → Built (.compound (fields.erase key))
  /-- Another value in the place of the one that a name has. -/
  | replace {fields : Compound} (key : String) {tag : Tag} :
      Built (.compound fields) → Built tag → Built (.compound (fields.modify key fun _ => tag))

section

variable {tag : Tag} {l : TagList} {fields : Compound}

/-! ## Layers of regular trees -/

theorem regular_leaf (hlist : tag.kind ≠ .list) (hcompound : tag.kind ≠ .compound) :
    tag.Regular := by
  cases tag with
  | list l => exact absurd rfl hlist
  | compound fields => exact absurd rfl hcompound
  | _ => exact ⟨(everywhere_leaf rfl).2 trivial, (everywhere_leaf rfl).2 trivial⟩

theorem regular_list_iff :
    Regular (.list l) ↔ TagList.Uniform l ∧ ∀ tag ∈ l.items, tag.Regular := by
  rcases l with ⟨element, items⟩
  constructor
  · intro h
    have huniform := everywhere_list.1 h.uniform
    have hdistinct := everywhere_list.1 h.distinct
    exact ⟨huniform.1, fun tag ht => ⟨huniform.2 tag ht, hdistinct.2 tag ht⟩⟩
  · intro h
    exact ⟨everywhere_list.2 ⟨h.1, fun tag ht => (h.2 tag ht).uniform⟩,
      everywhere_list.2 ⟨trivial, fun tag ht => (h.2 tag ht).distinct⟩⟩

theorem regular_compound_iff :
    Regular (.compound fields) ↔ fields.Distinct ∧ ∀ entry ∈ fields.entries, entry.2.Regular := by
  rcases fields with ⟨entries⟩
  constructor
  · intro h
    have huniform := everywhere_compound.1 h.uniform
    have hdistinct := everywhere_compound.1 h.distinct
    exact ⟨hdistinct.1, fun entry he => ⟨huniform.2 entry he, hdistinct.2 entry he⟩⟩
  · intro h
    exact ⟨everywhere_compound.2 ⟨trivial, fun entry he => (h.2 entry he).uniform⟩,
      everywhere_compound.2 ⟨h.1, fun entry he => (h.2 entry he).distinct⟩⟩

/-! ## What the operations keep -/

theorem regular_insert {key : String} (h : Regular (.compound fields)) (htag : tag.Regular) :
    Regular (.compound (fields.insert key tag)) := by
  rcases regular_compound_iff.1 h with ⟨hdistinct, hall⟩
  refine regular_compound_iff.2 ⟨hdistinct.insert key tag, fun entry he => ?_⟩
  rcases OrderedMap.mem_entries_insert he with old | rfl
  · exact hall entry old
  · exact htag

theorem regular_erase {key : String} (h : Regular (.compound fields)) :
    Regular (.compound (fields.erase key)) := by
  rcases regular_compound_iff.1 h with ⟨hdistinct, hall⟩
  exact regular_compound_iff.2 ⟨hdistinct.erase key,
    fun entry he => hall entry (OrderedMap.mem_of_mem_entries_erase he)⟩

theorem regular_replace {key : String} (h : Regular (.compound fields)) (htag : tag.Regular) :
    Regular (.compound (fields.modify key fun _ => tag)) := by
  rcases regular_compound_iff.1 h with ⟨hdistinct, hall⟩
  refine regular_compound_iff.2 ⟨?_, fun entry he => ?_⟩
  · rw [OrderedMap.Distinct, OrderedMap.keys_modify]
    exact hdistinct
  · rcases OrderedMap.mem_entries_modify he with old | ⟨old, -, rfl⟩
    · exact hall entry old
    · exact htag

theorem regular_of_ofItems {element : TagType} {items : List Tag} (hitems : ∀ tag ∈ items, tag.Regular)
    (h : TagList.ofItems element items = .ok l) : Regular (.list l) := by
  have huniform := TagList.uniform_of_ofItems h
  have hsame : l.items = items := by
    unfold TagList.ofItems at h
    split at h
    · cases h
    · cases h
      rfl
  exact regular_list_iff.2 ⟨huniform, fun tag ht => hitems tag (hsame ▸ ht)⟩

theorem regular_push {l' : TagList} (hl : Regular (.list l)) (htag : tag.Regular)
    (h : l.push tag = .ok l') : Regular (.list l') := by
  rcases regular_list_iff.1 hl with ⟨huniform, hall⟩
  refine regular_list_iff.2 ⟨huniform.push h, fun item hitem => ?_⟩
  -- A list without elements may take a new type, so only the elements are compared here.
  have hitems : l'.items = l.items ++ [tag] := by
    by_cases hfits : tag.kind = l.admits tag
    · have hmade : l' = ⟨l.admits tag, l.items ++ [tag]⟩ := by simpa [TagList.push, hfits] using h.symm
      rw [hmade]
    · simp [TagList.push, hfits] at h
  rw [hitems] at hitem
  rcases List.mem_append.1 hitem with old | new
  · exact hall item old
  · rw [List.mem_singleton.1 new]
    exact htag

theorem regular_mapCompounds {f : Compound → Compound} (hl : Regular (.list l))
    (h : ∀ fields, Tag.compound fields ∈ l.items → Regular (.compound (f fields))) :
    Regular (.list (l.mapCompounds f)) := by
  rcases regular_list_iff.1 hl with ⟨huniform, hall⟩
  refine regular_list_iff.2 ⟨huniform.mapCompounds f, fun item hitem => ?_⟩
  rcases List.mem_map.1 hitem with ⟨before, hbefore, rfl⟩
  cases before with
  | compound fields => exact h fields hbefore
  | _ => exact hall _ hbefore

theorem Built.regular (h : tag.Built) : tag.Regular := by
  -- Each operation has its lemma above; constructors of lists start from uniform ones.
  induction h with
  | leaf hlist hcompound => exact regular_leaf hlist hcompound
  | emptyList element =>
      exact regular_list_iff.2 ⟨TagList.uniform_empty element, fun tag ht => absurd ht List.not_mem_nil⟩
  | ofItems _ hmade ih => exact regular_of_ofItems ih hmade
  | infer _ hmade ih => exact regular_of_ofItems ih hmade
  | ofCompounds _ ih =>
      refine regular_list_iff.2 ⟨TagList.uniform_ofCompounds _, fun tag ht => ?_⟩
      rcases List.mem_map.1 ht with ⟨fields, hfields, rfl⟩
      exact ih fields hfields
  | ofDoubles values =>
      refine regular_list_iff.2 ⟨fun tag ht => ?_, fun tag ht => ?_⟩
      · rcases List.mem_map.1 ht with ⟨value, -, rfl⟩
        rfl
      · rcases List.mem_map.1 ht with ⟨value, -, rfl⟩
        exact regular_leaf nofun nofun
  | ofFloats values =>
      refine regular_list_iff.2 ⟨fun tag ht => ?_, fun tag ht => ?_⟩
      · rcases List.mem_map.1 ht with ⟨value, -, rfl⟩
        rfl
      · rcases List.mem_map.1 ht with ⟨value, -, rfl⟩
        exact regular_leaf nofun nofun
  | push _ _ hmade ihl ihtag => exact regular_push ihl ihtag hmade
  | mapCompounds _ _ ihl ihf => exact regular_mapCompounds ihl ihf
  | empty => exact regular_compound_iff.2 ⟨OrderedMap.distinct_empty, fun entry he => absurd he List.not_mem_nil⟩
  | insert key _ _ ihfields ihtag => exact regular_insert ihfields ihtag
  | erase key _ ih => exact regular_erase ih
  | replace key _ _ ihfields ihtag => exact regular_replace ihfields ihtag

/-! ## Every regular tree can be built -/

theorem built_insertMany {pairs : List (String × Tag)} (h : Built (.compound fields))
    (hall : ∀ entry ∈ pairs, entry.2.Built) : Built (.compound (fields.insertMany pairs)) := by
  induction pairs generalizing fields with
  | nil => exact h
  | cons pair rest ih =>
      rcases List.forall_mem_cons.1 hall with ⟨hpair, hrest⟩
      exact ih (h.insert pair.1 hpair) hrest

theorem built_iff_regular : tag.Built ↔ tag.Regular := by
  refine ⟨Built.regular, fun h => ?_⟩
  induction tag using byLayers with
  | layer tag ih =>
      cases tag with
      | list l =>
          rcases regular_list_iff.1 h with ⟨huniform, hall⟩
          have hitems : ∀ tag ∈ l.items, tag.Built := fun tag ht => ih tag ht (hall tag ht)
          -- No element is of another type, so the checked constructor takes them all.
          have hnone : l.items.find? (fun tag => tag.kind != l.element) = none :=
            List.find?_eq_none.2 fun tag ht => by simp [huniform tag ht]
          have hmade : TagList.ofItems l.element l.items = .ok l := by
            rw [TagList.ofItems, hnone]
          exact .ofItems hitems hmade
      | compound fields =>
          rcases fields with ⟨entries⟩
          rcases regular_compound_iff.1 h with ⟨hdistinct, hall⟩
          have hvalues : ∀ entry ∈ entries, entry.2.Built :=
            fun entry he => ih entry.2 (List.mem_map_of_mem he) (hall entry he)
          -- Fields with distinct names are what inserting them one after the other leaves.
          rw [← OrderedMap.ofList_of_nodup hdistinct]
          exact built_insertMany .empty hvalues
      | _ => exact .leaf nofun nofun

end

end VoxelSchematic.Tag
