import VoxelSchematic.Proofs.Schematic.Translation
import VoxelSchematic.Proofs.Tag.Same

/-!
# Translations of equal trees

Equal trees may list their fields in different orders. `Compound.Twins.translateIds` says that a
translation answers them with equal trees again: which numbers a tree holds depends on its names
and on the types of its values, not on where they stand.
-/

namespace VoxelSchematic

open IdField

namespace IdField

variable {f : IdKind → UInt16 → UInt16} {a b : Compound} {s t : Tag}

theorem isNumeric_eq_of_rel {found found' : Option Tag} (h : Option.Rel Tag.Twins found found') :
    isNumeric found = isNumeric found' := by
  have hkind : ∀ tag : Tag, isNumeric (some tag) = (tag.kind == .short || tag.kind == .int) := by
    intro tag
    cases tag <;> rfl
  cases h with
  | none => rfl
  | some hst => rw [hkind, hkind, hst.same.kind_eq]

theorem itemKey?_eq_of_twins (h : a.Twins b) : itemKey? a = itemKey? b := by
  have hnumeric : ∀ key, isNumeric (a.get? key) = isNumeric (b.get? key) :=
    fun key => isNumeric_eq_of_rel ((Compound.twins_iff.1 h).2.2 key)
  simp only [itemKey?, h.contains_eq, h.getInt?_eq, hnumeric]

theorem isDoor_eq_of_twins (h : a.Twins b) : isDoor a = isDoor b := by
  simp only [isDoor, h.getString?_eq]

theorem twins_insertNested {key : String} {inner inner' : Option Compound} (h : a.Twins b)
    (hinner : Option.Rel Compound.Twins inner inner') :
    Compound.Twins (insertNested a key inner) (insertNested b key inner') := by
  cases hinner with
  | none => exact h
  | some hfields => exact h.insert hfields

theorem answered_compound (held : Option IdKind) (fields : Compound) :
    answered f held (.compound fields) = .compound (fields.translateIds f) := by
  simp [answered, rewriteValue, Compound.translateIds, Compound.rewriteIds]

theorem answered_list (held : Option IdKind) (l : TagList) :
    answered f held (.list l) = .list (l.mapCompounds (Compound.translateIds f)) := by
  rcases l with ⟨element, items⟩
  have hitems : Id.run (rewriteItems (fun kind id => pure (f kind id)) items) =
      (TagList.mapCompounds ⟨element, items⟩ (Compound.translateIds f)).items := by
    induction items with
    | nil => rfl
    | cons tag rest ih =>
        simp only [TagList.mapCompounds] at ih
        cases tag with
        | compound inner =>
            simp only [rewriteItems, TagList.mapCompounds, List.map_cons, ← ih]
            rfl
        | _ =>
            simp only [rewriteItems, TagList.mapCompounds, List.map_cons, ← ih]
            rfl
  calc
    answered f held (.list ⟨element, items⟩) =
        .list ⟨element, Id.run (rewriteItems (fun kind id => pure (f kind id)) items)⟩ := rfl
    _ = .list (TagList.mapCompounds ⟨element, items⟩ (Compound.translateIds f)) := by
      rw [hitems]
      rfl

/-- A translation finds the compounds where they were. -/
theorem asCompound?_answered (held : Option IdKind) (tag : Tag) :
    (answered f held tag).asCompound? = tag.asCompound?.map (Compound.translateIds f) := by
  cases tag with
  | int v => cases held <;> rfl
  | compound inner => rw [answered_compound]; rfl
  | list l => rw [answered_list]; rfl
  | _ => rfl

/-- The number of an item record, in twins. -/
theorem twins_visit (h : s.Twins t) (hnumeric : isNumeric (some s) = true) :
    Tag.Twins (Id.run (visit (fun kind id => pure (f kind id)) .item s))
      (Id.run (visit (fun kind id => pure (f kind id)) .item t)) := by
  have hst : s = t := by
    cases h.same.form with
    | leaf _ _ => rfl
    | _ => cases hnumeric
  subst hst
  cases s with
  | short v =>
      exact Tag.twins_leaf (by simp [visit, Tag.Same, Tag.same]) (by simp [visit, Tag.kind])
        (by simp [visit, Tag.kind])
  | int v =>
      exact Tag.twins_leaf (by simp [visit, Tag.Same, Tag.same]) (by simp [visit, Tag.kind])
        (by simp [visit, Tag.kind])
  | _ => cases hnumeric

/-- Compounds are translated into twins if their fields are. -/
theorem twins_translateIds_of_fields (h : a.Twins b)
    (hfields : ∀ entry ∈ a.entries, ∀ t, entry.2.Twins t →
      ∀ held, Tag.Twins (answered f held entry.2) (answered f held t)) :
    Compound.Twins (a.translateIds f) (b.translateIds f) := by
  rcases Compound.twins_iff.1 h with ⟨ha, hb, -⟩
  have hfield : ∀ {key s t}, a.get? key = some s → s.Twins t →
      ∀ held, Tag.Twins (answered f held s) (answered f held t) :=
    fun hs => hfields _ (OrderedMap.mem_of_get? hs) _
  cases hitem : itemKey? a with
  | none =>
      -- Both are translated field by field, as doors or not.
      have hitem' : itemKey? b = none := (itemKey?_eq_of_twins h).symm.trans hitem
      refine Compound.twins_iff.2
        ⟨Compound.distinct_translateIds ha, Compound.distinct_translateIds hb, fun key => ?_⟩
      rw [Compound.get?_translateIds_of_not_item f hitem,
        Compound.get?_translateIds_of_not_item f hitem', isDoor_eq_of_twins h]
      rcases h.cases key with ⟨hs, ht⟩ | ⟨s, t, hs, ht, hst⟩
      · rw [hs, ht]
        exact .none
      · rw [hs, ht]
        exact .some (hfield hs hst _)
  -- An item record changes under at most three names, and twins change under the same ones.
  | some key =>
      have hitem' : itemKey? b = some key := (itemKey?_eq_of_twins h).symm.trans hitem
      have hnumeric := isNumeric_of_itemKey? hitem
      have hnested : ∀ name, Option.Rel Compound.Twins
          ((a.getCompound? name).map (Compound.translateIds f))
          ((b.getCompound? name).map (Compound.translateIds f)) := by
        intro name
        unfold Compound.getCompound? Compound.getAs?
        rcases h.cases name with ⟨hs, ht⟩ | ⟨s, t, hs, ht, hst⟩
        · rw [hs, ht]
          exact .none
        · have hrel := (hfield hs hst none).asCompound?
          rw [asCompound?_answered, asCompound?_answered] at hrel
          rw [hs, ht]
          exact hrel
      rw [Compound.translateIds_of_item f hitem, Compound.translateIds_of_item f hitem']
      refine twins_insertNested (twins_insertNested (h.insert ?_) (hnested "tag")) (hnested "d")
      rcases h.cases key with ⟨hs, -⟩ | ⟨s, t, hs, ht, hst⟩
      · rw [hs] at hnumeric
        cases hnumeric
      · rw [hs] at hnumeric ⊢
        rw [ht]
        exact twins_visit hst hnumeric

/-- Lists are translated into twins if their elements are. -/
theorem twins_mapCompounds_of_items {l l' : TagList} (h : Tag.Twins (.list l) (.list l'))
    (hitems : ∀ tag ∈ l.items, ∀ t, tag.Twins t →
      ∀ held, Tag.Twins (answered f held tag) (answered f held t)) :
    Tag.Twins (.list (l.mapCompounds (Compound.translateIds f)))
      (.list (l'.mapCompounds (Compound.translateIds f))) := by
  rcases Tag.twins_list_iff.1 h with ⟨helement, hall⟩
  have hmem := (List.forall₂_and_left l.items l'.items).2 ⟨fun tag htag => htag, hall⟩
  refine Tag.twins_list_iff.2 ⟨helement, ?_⟩
  rw [TagList.mapCompounds, TagList.mapCompounds, List.forall₂_map_left_iff,
    List.forall₂_map_right_iff]
  refine hmem.imp fun s t hst => ?_
  have htwins := hitems s hst.1 t hst.2 none
  -- Only the elements that are compounds are translated.
  cases hst.2.same.form with
  | compound a b =>
      rw [answered_compound, answered_compound] at htwins
      exact htwins
  | leaf _ hcompound =>
      cases s with
      | compound a => exact absurd rfl hcompound
      | _ => exact hst.2
  | _ => exact hst.2

theorem twins_answered (s : Tag) : ∀ t, s.Twins t →
    ∀ held, Tag.Twins (answered f held s) (answered f held t) := by
  -- The children of a tree are all that its translation descends into.
  induction s using Tag.byLayers with
  | layer s ih =>
      intro t h held
      cases h.same.form with
      | list l l' =>
          rw [answered_list, answered_list]
          exact twins_mapCompounds_of_items h ih
      | compound a b =>
          rw [answered_compound, answered_compound]
          exact twins_translateIds_of_fields h fun entry hentry =>
            ih entry.2 (List.mem_map_of_mem hentry)
      | float _ => exact h
      | double _ => exact h
      | leaf hlist hcompound =>
          cases s with
          | list l => exact absurd rfl hlist
          | compound a => exact absurd rfl hcompound
          | int v =>
              cases held with
              | none => exact h
              | some kind =>
                  exact Tag.twins_leaf
                    (by simp [answered, rewriteValue, visit, Tag.Same, Tag.same]) nofun nofun
          | _ => exact h

end IdField

/-- Equal trees are translated into equal trees. -/
theorem Compound.Twins.translateIds {a b : Compound} (h : a.Twins b)
    (f : IdKind → UInt16 → UInt16) : Compound.Twins (a.translateIds f) (b.translateIds f) :=
  twins_translateIds_of_fields h fun entry _ => twins_answered entry.2

end VoxelSchematic
