import VoxelSchematic.Proofs.Tag.Rearranged
import VoxelSchematic.Proofs.Tag.Same

/-!
# Equality of trees in any order of their fields

* `Tag.Twins.symm` and `Tag.Twins.trans`: among trees without repeated names, equality as values is
  symmetric and transitive.
* A tree is equal to itself if it holds no NaN (`Tag.same_self_iff`). It is then equal to every
  tree that orders the fields of its compounds in another way (`Tag.Rearranged.twins`).
* `Tag.Altered` says that trees differ somewhere in more than the order: in the type of a list, in
  a name, or in a tag that is neither a float nor has children. Such trees are unequal.
-/

namespace VoxelSchematic

open Ieee

/-! ## Related lists and maps -/

section

variable {α β : Type} {R S : α → β → Prop} {T : α → α → Prop}

theorem forall₂_imp_of_mem {items : List α} {others : List β} (h : List.Forall₂ R items others)
    (himp : ∀ a ∈ items, ∀ b, R a b → S a b) : List.Forall₂ S items others :=
  ((List.forall₂_and_left items others).2 ⟨himp, h⟩).imp fun _ b hab => hab.1 b hab.2

/-- What the first list entails of the members of the second. -/
theorem forall_mem_right {items : List α} {others : List β} {p : β → Prop}
    (h : List.Forall₂ R items others) (hp : ∀ a ∈ items, ∀ b, R a b → p b) : ∀ b ∈ others, p b := by
  induction h with
  | nil => exact nofun
  | cons hab _ ih =>
      rcases List.forall_mem_cons.1 hp with ⟨hfirst, hrest⟩
      exact List.forall_mem_cons.2 ⟨hfirst _ hab, ih hrest⟩

theorem forall₂_trans_of_mem {items others last : List α} (h : List.Forall₂ T items others)
    (hnext : List.Forall₂ T others last)
    (htrans : ∀ a ∈ items, ∀ b c, T a b → T b c → T a c) : List.Forall₂ T items last := by
  induction h generalizing last with
  | nil => exact hnext
  | cons hab _ ih =>
      rcases List.forall_mem_cons.1 htrans with ⟨hfirst, hrest⟩
      cases hnext with
      | cons hbc hbehind => exact .cons (hfirst _ _ hab hbc) (ih hbehind hrest)

/-- Entries with the same keys and related values give related answers. -/
theorem rel_get? {entries : List (String × α)} {entries' : List (String × β)}
    (hkeys : entries.map Prod.fst = entries'.map Prod.fst)
    (hvalues : List.Forall₂ R (entries.map Prod.snd) (entries'.map Prod.snd)) (key : String) :
    Option.Rel R ((⟨entries⟩ : OrderedMap α).get? key) ((⟨entries'⟩ : OrderedMap β).get? key) := by
  induction entries generalizing entries' with
  | nil =>
      cases entries' with
      | nil => exact .none
      | cons entry' rest' => cases hkeys
  | cons entry rest ih =>
      cases entries' with
      | nil => cases hkeys
      | cons entry' rest' =>
          rcases List.cons.inj hkeys with ⟨hkey, hkeys⟩
          rcases List.forall₂_cons.1 hvalues with ⟨hvalue, hvalues⟩
          rw [OrderedMap.get?_cons, OrderedMap.get?_cons, hkey]
          split
          · exact .some hvalue
          · exact ih hkeys hvalues

end

theorem OrderedMap.distinct_of_perm {α : Type} {entries middle entries' : List (String × α)}
    (h : (⟨entries⟩ : OrderedMap α).Distinct) (hperm : entries.Perm middle)
    (hkeys : middle.map Prod.fst = entries'.map Prod.fst) : (⟨entries'⟩ : OrderedMap α).Distinct := by
  have hmiddle : (middle.map Prod.fst).Nodup := (hperm.map Prod.fst).nodup_iff.1 h
  rwa [hkeys] at hmiddle

/-- Where no key has two slots, the order of the entries does not matter to look-ups. -/
theorem OrderedMap.get?_of_perm {α : Type} {a b : OrderedMap α} (ha : a.Distinct)
    (hperm : a.entries.Perm b.entries) (key : String) : b.get? key = a.get? key := by
  cases hb : b.get? key with
  | none =>
      have hnot := get?_eq_none_iff.1 hb
      exact (get?_eq_none_iff.2 fun hmem => hnot ((hperm.map Prod.fst).mem_iff.1 hmem)).symm
  | some value => exact (get?_of_mem ha (hperm.mem_iff.2 (mem_of_get? hb))).symm

namespace Tag

variable {s t u : Tag} {key : String}

/-! ## Symmetry and transitivity -/

theorem Twins.symm (h : s.Twins t) : t.Twins s := by
  -- Equality asks for the fields of one compound in the other. Without repeated names, equal numbers
  -- of fields make that a statement about all look-ups, which can be turned around.
  induction s using byLayers generalizing t with
  | layer s ih =>
      cases h.same.form with
      | list l l' =>
          rcases twins_list_iff.1 h with ⟨helement, hitems⟩
          have hflip : List.Forall₂ (fun item other => Twins other item) l.items l'.items :=
            forall₂_imp_of_mem hitems fun item hitem other => ih item hitem
          exact twins_list_iff.2 ⟨helement.symm, hflip.flip⟩
      | compound a b =>
          rcases Compound.twins_iff.1 h with ⟨ha, hb, hrel⟩
          exact Compound.twins_iff.2 ⟨hb, ha, fun key =>
            rel_flip_of (hrel key) fun v _ hv =>
              ih v (List.mem_map_of_mem (OrderedMap.mem_of_get? hv))⟩
      | float hxy =>
          exact ⟨by simpa [Same, Tag.same] using Binary32.same_symm hxy, h.right, h.left⟩
      | double hxy =>
          exact ⟨by simpa [Same, Tag.same] using Binary64.same_symm hxy, h.right, h.left⟩
      | leaf _ _ => exact h

theorem Twins.trans (h : s.Twins t) (hnext : t.Twins u) : s.Twins u := by
  -- The form of the first tree is that of the second, which leaves one form for the third.
  induction s using byLayers generalizing t u with
  | layer s ih =>
      cases h.same.form with
      | list l l' =>
          cases hnext.same.form with
          | list _ l'' =>
              rcases twins_list_iff.1 h with ⟨helement, hitems⟩
              rcases twins_list_iff.1 hnext with ⟨helement', hitems'⟩
              exact twins_list_iff.2 ⟨helement.trans helement',
                forall₂_trans_of_mem hitems hitems' fun item hitem _ _ => ih item hitem⟩
          | leaf hlist _ => exact absurd rfl hlist
      | compound a b =>
          cases hnext.same.form with
          | compound _ c =>
              rcases Compound.twins_iff.1 h with ⟨ha, -, hrel⟩
              rcases Compound.twins_iff.1 hnext with ⟨-, hc, hrel'⟩
              exact Compound.twins_iff.2 ⟨ha, hc, fun key =>
                rel_trans_of (hrel key) (hrel' key) fun v _ _ hv =>
                  ih v (List.mem_map_of_mem (OrderedMap.mem_of_get? hv))⟩
          | leaf _ hcompound => exact absurd rfl hcompound
      | float hxy =>
          cases hnext.same.form with
          | float hyz =>
              exact ⟨by simpa [Same, Tag.same] using Binary32.same_trans hxy hyz, h.left, hnext.right⟩
          | leaf _ _ => exact h
      | double hxy =>
          cases hnext.same.form with
          | double hyz =>
              exact ⟨by simpa [Same, Tag.same] using Binary64.same_trans hxy hyz, h.left, hnext.right⟩
          | leaf _ _ => exact h
      | leaf _ _ => exact hnext

/-! ## NaN -/

/-- A float, if the tag is one, is a number. -/
def NumberNode : Tag → Prop
  | .float x => x.isNan = false
  | .double x => x.isNan = false
  | _ => True

theorem same_self_iff (h : s.Everywhere DistinctNode) : s.Same s ↔ s.Everywhere NumberNode := by
  induction s using byLayers with
  | layer s ih =>
      cases s with
      | list l =>
          rcases l with ⟨element, items⟩
          rcases everywhere_list.1 h with ⟨-, hitems⟩
          rw [same_list_iff, everywhere_list, List.forall₂_same]
          exact and_congr (iff_of_true rfl trivial)
            (forall₂_congr fun item hitem => ih item hitem (hitems item hitem))
      | compound fields =>
          rcases fields with ⟨entries⟩
          rcases everywhere_compound.1 h with ⟨hdistinct, hentries⟩
          rw [same_compound_iff, Compound.same_iff_size, everywhere_compound]
          refine and_congr (iff_of_true rfl trivial) (forall₂_congr fun entry hentry => ?_)
          rw [← ih entry.2 (List.mem_map_of_mem hentry) (hentries entry hentry),
            OrderedMap.get?_of_mem hdistinct hentry]
          simp
      | float x =>
          have hnode : Everywhere NumberNode (.float x) ↔ x.isNan = false := everywhere_leaf rfl
          rw [hnode, Same, Tag.same, Binary32.same_self_iff]
      | double x =>
          have hnode : Everywhere NumberNode (.double x) ↔ x.isNan = false := everywhere_leaf rfl
          rw [hnode, Same, Tag.same, Binary64.same_self_iff]
      | _ => exact iff_of_true (by simp [Same, Tag.same]) ((everywhere_leaf rfl).2 trivial)

/-! ## Other orders -/

theorem Rearranged.kind_eq (h : s.Rearranged t) : s.kind = t.kind := by
  cases h <;> rfl

/-- Another order of the fields is the order of a tree that can be made too. -/
theorem Rearranged.regular (h : s.Rearranged t) (hs : s.Regular) : t.Regular := by
  induction s using byLayers generalizing t with
  | layer s ih =>
      cases h with
      | refl => exact hs
      | @list element items items' hitems =>
          rcases regular_list_iff.1 hs with ⟨huniform, hregular⟩
          have hgood : ∀ other ∈ items', other.kind = element ∧ other.Regular :=
            forall_mem_right hitems fun item hitem other hsame =>
              ⟨hsame.kind_eq ▸ huniform item hitem, ih item hitem hsame (hregular item hitem)⟩
          exact regular_list_iff.2
            ⟨fun other hother => (hgood other hother).1, fun other hother => (hgood other hother).2⟩
      | @compound entries middle entries' hperm hkeys hvalues =>
          rcases regular_compound_iff.1 hs with ⟨hnodup, hregular⟩
          refine regular_compound_iff.2
            ⟨OrderedMap.distinct_of_perm hnodup hperm hkeys, List.forall_mem_map.1 ?_⟩
          refine forall_mem_right hvalues fun value hvalue other hsame => ?_
          rcases List.mem_map.1 hvalue with ⟨entry, hentry, rfl⟩
          have hold := hperm.mem_iff.2 hentry
          exact ih entry.2 (List.mem_map_of_mem hold) hsame (hregular entry hold)

theorem Rearranged.twins (h : s.Rearranged t) (hs : s.Everywhere DistinctNode)
    (hnumber : s.Everywhere NumberNode) : s.Twins t := by
  induction s using byLayers generalizing t with
  | layer s ih =>
      cases h with
      | refl => exact ⟨(same_self_iff hs).2 hnumber, hs, hs⟩
      | @list element items items' hitems =>
          rcases everywhere_list.1 hs with ⟨-, hdistinct⟩
          rcases everywhere_list.1 hnumber with ⟨-, hnumber⟩
          exact twins_list_iff.2 ⟨rfl, forall₂_imp_of_mem hitems fun item hitem other hsame =>
            ih item hitem hsame (hdistinct item hitem) (hnumber item hitem)⟩
      | @compound entries middle entries' hperm hkeys hvalues =>
          rcases everywhere_compound.1 hs with ⟨hnodup, hdistinct⟩
          rcases everywhere_compound.1 hnumber with ⟨-, hnumber⟩
          have htwins : List.Forall₂ Twins (middle.map Prod.snd) (entries'.map Prod.snd) := by
            refine forall₂_imp_of_mem hvalues fun value hvalue other hsame => ?_
            rcases List.mem_map.1 hvalue with ⟨entry, hentry, rfl⟩
            have hold := hperm.mem_iff.2 hentry
            exact ih entry.2 (List.mem_map_of_mem hold) hsame (hdistinct entry hold)
              (hnumber entry hold)
          refine Compound.twins_iff.2
            ⟨hnodup, OrderedMap.distinct_of_perm hnodup hperm hkeys, fun key => ?_⟩
          rw [← OrderedMap.get?_of_perm (b := ⟨middle⟩) hnodup hperm]
          exact rel_get? hkeys htwins key

/-! ## Altered trees -/

/-- The trees differ in more than the order of fields: somewhere inside, a list has another type, a
name is missing, or something that is neither a float nor has children is replaced. Whatever else
differs does not matter. -/
inductive Altered : Tag → Tag → Prop
  | leaf {s t : Tag} : s.kind ≠ .list → s.kind ≠ .compound → s.kind ≠ .float → s.kind ≠ .double →
      s ≠ t → Altered s t
  | element {l l' : TagList} : l.element ≠ l'.element → Altered (.list l) (.list l')
  | name {a b : Compound} {key : String} :
      key ∈ a.keys → key ∉ b.keys → Altered (.compound a) (.compound b)
  | item {l l' : TagList} {i : Nat} {s t : Tag} :
      l.items[i]? = some s → l'.items[i]? = some t → Altered s t → Altered (.list l) (.list l')
  | field {a b : Compound} {key : String} {s t : Tag} :
      a.get? key = some s → b.get? key = some t → Altered s t → Altered (.compound a) (.compound b)

theorem Altered.not_same (h : s.Altered t) : ¬s.Same t := by
  induction h with
  | leaf hlist hcompound hfloat hdouble hne =>
      exact fun hsame => hne (hsame.eq_of_kind hlist hcompound hfloat hdouble)
  | element hne => exact fun hsame => hne (same_list_iff.1 hsame).1
  | @name a b key hkey hnone =>
      intro hsame
      rcases List.mem_map.1 hkey with ⟨entry, hentry, rfl⟩
      rcases (Compound.same_iff_size.1 (same_compound_iff.1 hsame)).2 entry hentry with ⟨t, ht, -⟩
      rw [OrderedMap.get?_eq_none_iff.2 hnone] at ht
      cases ht
  | @item l l' i s t hs ht _ ih =>
      intro hsame
      have hrel := rel_getElem? (same_list_iff.1 hsame).2 i
      rw [hs, ht] at hrel
      cases hrel with
      | some hitem => exact ih hitem
  | @field a b key s t hs ht _ ih =>
      intro hsame
      rcases (Compound.same_iff_size.1 (same_compound_iff.1 hsame)).2 (key, s)
        (OrderedMap.mem_of_get? hs) with ⟨found, hfound, hfield⟩
      cases ht.symm.trans hfound
      exact ih hfield

/-! ## Equality of trees that can be made -/

/-- Equality as values is a partial equivalence of the trees that can be made, and takes no notice
of the order of fields at any depth. The trees that are unequal to themselves are those with a NaN in
them. All others are equal to every rearranged tree, and unequal to every altered one. -/
theorem same_partial_equivalence (hs : s.Built) (ht : t.Built) (hu : u.Built) :
    (s.same t = true → t.same s = true) ∧
    (s.same t = true → t.same u = true → s.same u = true) ∧
    (s.same s = true ↔ s.Everywhere NumberNode) ∧
    (s.Everywhere NumberNode →
      ∀ other, s.Rearranged other → other.Built ∧ s.same other = true) ∧
    (s.Altered t → s.same t = false ∧ t.same s = false) := by
  have hsymm : ∀ {a b : Tag}, a.Built → b.Built → a.Same b → b.Same a :=
    fun ha hb hsame => (ha.twins hb hsame).symm.same
  refine ⟨hsymm hs ht, fun hst htu => ((hs.twins ht hst).trans (ht.twins hu htu)).same,
    same_self_iff hs.regular.distinct, fun hnumber other hother => ?_, fun haltered => ?_⟩
  · exact ⟨built_iff_regular.2 (hother.regular hs.regular),
      (hother.twins hs.regular.distinct hnumber).same⟩
  · rw [← Bool.not_eq_true, ← Bool.not_eq_true]
    exact ⟨haltered.not_same, fun hsame => haltered.not_same (hsymm ht hs hsame)⟩

/-- What a crate states. -/
def crate (width : Int16) : Compound := ⟨[("width", .short width), ("weight", .float .zero)]⟩

/-- The same with the weight first. -/
def crateByWeight : Compound := ⟨[("weight", .float .zero), ("width", .short 1)]⟩

/-- A list of one compound. -/
def listed (fields : Compound) : Tag := .list (TagList.ofCompounds [fields])

theorem built_crate (width : Int16) : (listed (crate width)).Built := by
  have hwidth : Built (.short width) := .leaf nofun nofun
  have hweight : Built (.float .zero) := .leaf nofun nofun
  have hcrate : Built (.compound (crate width)) :=
    .insert "weight" (.insert "width" .empty hwidth) hweight
  exact .ofCompounds (List.forall_mem_singleton.2 hcrate)

theorem number_crate : (listed (crate 1)).Everywhere NumberNode := by
  refine everywhere_ofCompounds.2 ⟨trivial, List.forall_mem_singleton.2 ?_⟩
  refine everywhere_compound.2 ⟨trivial, List.forall_mem_cons.2 ⟨?_, List.forall_mem_singleton.2 ?_⟩⟩
  · exact (everywhere_leaf rfl).2 trivial
  · exact (everywhere_leaf rfl).2 (by decide : Binary32.zero.isNan = false)

theorem rearranged_crate : (listed (crate 1)).Rearranged (listed crateByWeight) := by
  refine .ofCompounds (.cons ?_ .nil)
  exact .compound (.swap _ _ _) rfl (List.forall₂_same.2 fun tag _ => .refl tag)

theorem altered_crate : (listed (crate 1)).Altered (listed (crate 2)) := by
  have hwidth : ∀ width, (crate width).get? "width" = some (.short width) := fun _ => rfl
  have hfield : Altered (.compound (crate 1)) (.compound (crate 2)) :=
    .field (hwidth 1) (hwidth 2) (.leaf nofun nofun nofun nofun (by simp))
  exact .item (i := 0) rfl rfl hfield

theorem same_partial_equivalence_crate :
    (listed crateByWeight).same (listed (crate 1)) = true ∧
    (listed (crate 1)).same (listed (crate 1)) = true ∧
    (listed (crate 1)).same (listed crateByWeight) = true ∧
    (listed (crate 1)).same (listed (crate 2)) = false := by
  rcases same_partial_equivalence (built_crate 1) (built_crate 2) (built_crate 1) with
    ⟨-, -, -, hother, haltered⟩
  rcases hother number_crate _ rearranged_crate with ⟨hbuilt, hsame⟩
  rcases same_partial_equivalence (built_crate 1) hbuilt (built_crate 1) with ⟨hsymm, htrans, -⟩
  exact ⟨hsymm hsame, htrans hsame (hsymm hsame), hsame, (haltered altered_crate).1⟩

end Tag

end VoxelSchematic
