import VoxelSchematic.Proofs.OrderedMap
import VoxelSchematic.Tag.List

/-!
# Trees up to the order of fields

`Tag.Rearranged` relates trees that differ in the order of the fields of their compounds and in
nothing else, not even in the bits of a NaN. Two compounds that answer every look-up alike are
rearranged.
-/

namespace VoxelSchematic

theorem OrderedMap.perm_of_get? {α : Type} {a b : OrderedMap α} (ha : a.Distinct) (hb : b.Distinct)
    (same : ∀ key, a.get? key = b.get? key) : a.entries.Perm b.entries := by
  have hnodup : ∀ m : OrderedMap α, m.Distinct → m.entries.Nodup := fun m hm => hm.of_map Prod.fst
  apply (List.perm_ext_iff_of_nodup (hnodup a ha) (hnodup b hb)).2
  intro entry
  constructor
  · intro hentry
    exact mem_of_get? ((same entry.1).symm.trans (get?_of_mem ha hentry))
  · intro hentry
    exact mem_of_get? ((same entry.1).trans (get?_of_mem hb hentry))

namespace Tag

/-- The trees are the same up to the order of the fields in their compounds. -/
inductive Rearranged : Tag → Tag → Prop
  | refl (tag : Tag) : Rearranged tag tag
  | list (element : TagType) {items items' : List Tag} :
      List.Forall₂ Rearranged items items' →
        Rearranged (.list ⟨element, items⟩) (.list ⟨element, items'⟩)
  | compound {entries middle entries' : List (String × Tag)} :
      entries.Perm middle → middle.map Prod.fst = entries'.map Prod.fst →
        List.Forall₂ Rearranged (middle.map Prod.snd) (entries'.map Prod.snd) →
          Rearranged (.compound ⟨entries⟩) (.compound ⟨entries'⟩)

namespace Rearranged

theorem of_get? {a b : Compound} (ha : a.Distinct) (hb : b.Distinct)
    (same : ∀ key, a.get? key = b.get? key) : Rearranged (.compound a) (.compound b) :=
  .compound (OrderedMap.perm_of_get? ha hb same) rfl
    (List.forall₂_same.2 fun tag _ => .refl tag)

/-- One field may be rearranged in its place. -/
theorem field {before behind : List (String × Tag)} {key : String} {tag tag' : Tag}
    (h : Rearranged tag tag') :
    Rearranged (.compound ⟨before ++ (key, tag) :: behind⟩)
      (.compound ⟨before ++ (key, tag') :: behind⟩) := by
  have hrefl : ∀ tags : List Tag, List.Forall₂ Rearranged tags tags :=
    fun tags => List.forall₂_same.2 fun tag _ => .refl tag
  refine .compound (List.Perm.refl _) (by simp) ?_
  simpa using List.rel_append (hrefl (before.map Prod.snd)) (.cons h (hrefl (behind.map Prod.snd)))

theorem ofCompounds {items items' : List Compound}
    (h : List.Forall₂ (fun a b => Rearranged (.compound a) (.compound b)) items items') :
    Rearranged (.list (TagList.ofCompounds items)) (.list (TagList.ofCompounds items')) :=
  .list .compound (List.forall₂_map_left_iff.2 (List.forall₂_map_right_iff.2 h))

end Rearranged

end Tag

end VoxelSchematic
