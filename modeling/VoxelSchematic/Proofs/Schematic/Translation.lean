import VoxelSchematic.Proofs.Schematic.Traversal

/-!
# What a translation keeps

A translation changes numbers in their places and nothing else. An item record keeps its names and
gets new values under three of them at most; any other tree is translated field by field. In both
cases names stay names and texts stay texts.
-/

namespace VoxelSchematic

open IdField

namespace IdField

variable {f : IdKind → UInt16 → UInt16} {key : String}

/-- A value with pure answers in the place of its numbers. -/
def answered (f : IdKind → UInt16 → UInt16) (held : Option IdKind) (tag : Tag) : Tag :=
  Id.run (rewriteValue (fun kind id => pure (f kind id)) held tag)

theorem run_rewriteFields (door : Bool) (entries : List (String × Tag)) :
    Id.run (rewriteFields (fun kind id => pure (f kind id)) door entries) =
      entries.map fun entry => (entry.1, answered f (doorField? door entry.1) entry.2) := by
  induction entries with
  | nil => rfl
  | cons entry rest ih =>
      rcases entry with ⟨key, tag⟩
      simpa [rewriteFields, answered] using ih

theorem asString?_answered (held : Option IdKind) (tag : Tag) :
    (answered f held tag).asString? = tag.asString? := by
  cases tag with
  | int v =>
      cases held with
      | none => simp [answered, rewriteValue]
      | some kind => simp [answered, rewriteValue, visit, Tag.asString?]
  | compound inner => simp [answered, rewriteValue, Tag.asString?]
  | list l => simp [answered, rewriteValue, Tag.asString?]
  | _ => simp [answered, rewriteValue]

/-- The number that makes an item record stands under its key. -/
theorem isNumeric_of_itemKey? {tree : Compound} (h : itemKey? tree = some key) :
    isNumeric (tree.get? key) = true := by
  unfold itemKey? at h
  simp only [Bool.and_eq_true] at h
  split at h
  · next hid =>
      cases h
      exact hid.1.1
  · split at h
    · next hitem =>
        cases h
        exact hitem.1.1
    · split at h
      · next hint =>
          cases h
          rcases Option.isSome_iff_exists.1 hint with ⟨v, hv⟩
          rcases Option.bind_eq_some_iff.1 hv with ⟨tag, hget, htag⟩
          cases tag with
          | int v =>
              rw [hget]
              rfl
          | _ => cases htag
      · cases h

end IdField

namespace Compound

variable {f : IdKind → UInt16 → UInt16} {tree : Compound} {key : String}

/-! ## The two cases -/

theorem translateIds_of_not_item (f : IdKind → UInt16 → UInt16) (h : itemKey? tree = none) :
    tree.translateIds f = ⟨tree.entries.map fun entry =>
      (entry.1, answered f (doorField? (isDoor tree) entry.1) entry.2)⟩ := by
  rcases tree with ⟨entries⟩
  rw [← run_rewriteFields]
  simp [translateIds, rewriteIds, rewriteTree, h]

theorem translateIds_of_item (f : IdKind → UInt16 → UInt16) (h : itemKey? tree = some key) :
    tree.translateIds f =
      insertNested (insertNested
        (tree.insert key (Id.run (visit (fun kind id => pure (f kind id)) .item
          ((tree.get? key).getD .terminator))))
        "tag" ((tree.getCompound? "tag").map fun inner => inner.translateIds f))
        "d" ((tree.getCompound? "d").map fun inner => inner.translateIds f) := by
  have hnested : ∀ name, Id.run (rewriteNested (fun kind id => pure (f kind id)) name tree.entries) =
      (tree.getCompound? name).map fun inner => inner.translateIds f := by
    intro name
    rw [rewriteNested_eq]
    cases tree.getCompound? name with
    | none => rfl
    | some inner => rfl
  rcases tree with ⟨entries⟩
  simp only [translateIds, rewriteIds, rewriteTree, h] at hnested ⊢
  simp [hnested]

/-- A tree that is no item record is translated field by field. -/
theorem get?_translateIds_of_not_item (f : IdKind → UInt16 → UInt16) (h : itemKey? tree = none)
    (key : String) :
    (tree.translateIds f).get? key =
      (tree.get? key).map (answered f (doorField? (isDoor tree) key)) := by
  rw [translateIds_of_not_item f h]
  exact OrderedMap.get?_mapValues (fun key => answered f (doorField? (isDoor tree) key)) tree key

theorem convertIds_empty (tree : Compound) : tree.convertIds {} = tree := by
  have hsame : Conversion.translate {} = fun _ id => id := by
    funext kind id
    cases kind with
    | block => rfl
    | item => rfl
  rw [convertIds_eq, hsame, translateIds_id]

/-- A door that is no item record keeps a block number under one name. -/
theorem getInt?_convertIds_of_isDoor (c : Conversion) (door : isDoor tree = true)
    (h : itemKey? tree = none) :
    (tree.convertIds c).getInt? doorBlock =
      (tree.getInt? doorBlock).map fun v => withLowBits v (c.block (lowBits v)) := by
  have hheld : doorField? (isDoor tree) doorBlock = some .block := by
    rw [door]
    rfl
  unfold getInt? getAs?
  rw [convertIds_eq, get?_translateIds_of_not_item c.translate h, hheld]
  cases tree.get? doorBlock with
  | none => rfl
  | some tag =>
      cases tag with
      | compound inner => simp [answered, rewriteValue, Tag.asInt?]
      | list l => simp [answered, rewriteValue, Tag.asInt?]
      | _ => rfl

/-! ## Names and texts -/

/-- Two trees have the same names in the same order, and the same texts under them. -/
structure SameTexts (a b : Compound) : Prop where
  keys : a.keys = b.keys
  texts : ∀ key, a.getString? key = b.getString? key

/-- Something that is no text stands under the name. -/
def HoldsOther (tree : Compound) (key : String) : Prop :=
  ∃ tag, tree.get? key = some tag ∧ tag.asString? = none

variable {a b : Compound}

theorem SameTexts.insert {tag : Tag} (h : SameTexts a b) (hkey : b.HoldsOther key)
    (htag : tag.asString? = none) : SameTexts (OrderedMap.insert a key tag) b := by
  rcases hkey with ⟨old, hget, hold⟩
  have hmem : key ∈ a.keys := by
    by_contra hnone
    rw [h.keys, ← OrderedMap.get?_eq_none_iff, hget] at hnone
    cases hnone
  refine ⟨(OrderedMap.keys_insert_of_mem tag hmem).trans h.keys, fun other => ?_⟩
  rw [← h.texts other]
  have htexts := h.texts key
  unfold getString? getAs? at htexts ⊢
  rw [OrderedMap.get?_insert]
  -- Neither what stood there nor what comes to stand there is a text.
  by_cases hsame : key = other
  · subst hsame
    rw [if_pos rfl, htexts, hget]
    exact htag.trans hold.symm
  · rw [if_neg hsame]

theorem SameTexts.insertNested {inner : Option Compound} (h : SameTexts a b)
    (hinner : inner.isSome → b.HoldsOther key) : SameTexts (IdField.insertNested a key inner) b := by
  cases inner with
  | none => exact h
  | some fields => exact h.insert (hinner rfl) rfl

theorem holdsOther_of_getCompound? (h : (tree.getCompound? key).isSome) : tree.HoldsOther key := by
  rcases Option.isSome_iff_exists.1 h with ⟨inner, hinner⟩
  rcases Option.bind_eq_some_iff.1 hinner with ⟨tag, hget, htag⟩
  cases tag with
  | compound fields => exact ⟨_, hget, rfl⟩
  | _ => cases htag

/-- Names stay names and texts stay texts. -/
theorem sameTexts_translateIds (f : IdKind → UInt16 → UInt16) (tree : Compound) :
    SameTexts (tree.translateIds f) tree := by
  cases hitem : itemKey? tree with
  | none =>
      refine ⟨?_, fun key => ?_⟩
      · rw [translateIds_of_not_item f hitem]
        simp [OrderedMap.keys, Function.comp_def]
      · unfold getString? getAs?
        rw [get?_translateIds_of_not_item f hitem]
        cases tree.get? key with
        | none => rfl
        | some tag => exact asString?_answered _ tag
  | some key =>
      -- A number comes to stand where one stood, and compounds where compounds stood.
      have hnumeric := isNumeric_of_itemKey? hitem
      have hown : tree.HoldsOther key ∧ (Id.run (visit (fun kind id => pure (f kind id)) .item
          ((tree.get? key).getD .terminator))).asString? = none := by
        cases hget : tree.get? key with
        | none =>
            rw [hget] at hnumeric
            cases hnumeric
        | some tag =>
            rw [hget] at hnumeric
            cases tag with
            | short v => exact ⟨⟨_, hget, rfl⟩, rfl⟩
            | int v => exact ⟨⟨_, hget, rfl⟩, rfl⟩
            | _ => cases hnumeric
      have hnested : ∀ name, ((tree.getCompound? name).map fun inner =>
          inner.translateIds f).isSome → tree.HoldsOther name := by
        intro name hsome
        rw [Option.isSome_map] at hsome
        exact holdsOther_of_getCompound? hsome
      have hsame : SameTexts tree tree := ⟨rfl, fun _ => rfl⟩
      rw [translateIds_of_item f hitem]
      exact ((hsame.insert hown.1 hown.2).insertNested (hnested "tag")).insertNested (hnested "d")

theorem distinct_translateIds (h : tree.Distinct) : (tree.translateIds f).Distinct := by
  rw [OrderedMap.Distinct, (sameTexts_translateIds f tree).keys]
  exact h

/-- No name comes and none goes. -/
theorem get?_translateIds_eq_none_iff :
    (tree.translateIds f).get? key = none ↔ tree.get? key = none := by
  rw [OrderedMap.get?_eq_none_iff, OrderedMap.get?_eq_none_iff, (sameTexts_translateIds f tree).keys]

end Compound

end VoxelSchematic
