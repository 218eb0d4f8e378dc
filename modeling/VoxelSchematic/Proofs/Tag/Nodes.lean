import Mathlib
import VoxelSchematic.Tag.List

/-!
# Nodes of a tree

* `Tag.nodes` lists a tag and all tags inside it; `Tag.Everywhere` states a condition on each.
* `Tag.depth` is the number of lists and compounds on the longest way down.
* `Tag.Regular` is what the operations on lists and compounds guarantee: elements of the declared
  type, and no name twice.
* `Tag.byLayers` is induction over trees.
-/

namespace VoxelSchematic

namespace Tag

/-! ## Layers -/

/-- The tags right inside a tag. -/
def children : Tag → List Tag
  | .list ⟨_, items⟩ => items
  | .compound ⟨entries⟩ => entries.map Prod.snd
  | _ => []

mutual

/-- A tag and all tags inside it, outermost first. -/
def nodes : Tag → List Tag
  | .list ⟨element, items⟩ => .list ⟨element, items⟩ :: nodesOfItems items
  | .compound ⟨entries⟩ => .compound ⟨entries⟩ :: nodesOfFields entries
  | tag => [tag]

/-- The nodes of the elements of a list. -/
def nodesOfItems : List Tag → List Tag
  | [] => []
  | tag :: rest => tag.nodes ++ nodesOfItems rest

/-- The nodes of the values of a compound. -/
def nodesOfFields : List (String × Tag) → List Tag
  | [] => []
  | (_, tag) :: rest => tag.nodes ++ nodesOfFields rest

end

mutual

/-- The number of lists and compounds that are nested, the tag itself counted. -/
def depth : Tag → Nat
  | .list ⟨_, items⟩ => depthOfItems items + 1
  | .compound ⟨entries⟩ => depthOfFields entries + 1
  | _ => 0

/-- The depth of the deepest element. -/
def depthOfItems : List Tag → Nat
  | [] => 0
  | tag :: rest => max tag.depth (depthOfItems rest)

/-- The depth of the deepest value. -/
def depthOfFields : List (String × Tag) → Nat
  | [] => 0
  | (_, tag) :: rest => max tag.depth (depthOfFields rest)

end

/-- A condition that every node of a tree meets. -/
def Everywhere (p : Tag → Prop) (tag : Tag) : Prop := ∀ node ∈ tag.nodes, p node

theorem nodesOfItems_eq_flatMap (items : List Tag) : nodesOfItems items = items.flatMap nodes := by
  induction items with
  | nil => rfl
  | cons tag rest ih => simp [nodesOfItems, ih]

theorem nodesOfFields_eq_flatMap (entries : List (String × Tag)) :
    nodesOfFields entries = entries.flatMap fun entry => entry.2.nodes := by
  induction entries with
  | nil => rfl
  | cons entry rest ih => simp [nodesOfFields, ih]

theorem depthOfItems_le_iff {items : List Tag} {n : Nat} :
    depthOfItems items ≤ n ↔ ∀ tag ∈ items, tag.depth ≤ n := by
  induction items with
  | nil => simp [depthOfItems]
  | cons tag rest ih => simp [depthOfItems, ih]

theorem depthOfFields_le_iff {entries : List (String × Tag)} {n : Nat} :
    depthOfFields entries ≤ n ↔ ∀ entry ∈ entries, entry.2.depth ≤ n := by
  induction entries with
  | nil => simp [depthOfFields]
  | cons entry rest ih => simp [depthOfFields, ih]

/-! ## Opening a layer -/

section

variable {p q : Tag → Prop} {element : TagType} {items : List Tag}
  {entries : List (String × Tag)} {n : Nat}

theorem everywhere_list :
    Everywhere p (.list ⟨element, items⟩) ↔
      p (.list ⟨element, items⟩) ∧ ∀ tag ∈ items, tag.Everywhere p := by
  simp only [Everywhere, nodes, nodesOfItems_eq_flatMap, List.mem_cons, List.mem_flatMap]
  constructor
  · intro h
    exact ⟨h _ (.inl rfl), fun tag ht node hn => h node (.inr ⟨tag, ht, hn⟩)⟩
  · rintro ⟨here, below⟩ node (rfl | ⟨tag, ht, hn⟩)
    · exact here
    · exact below tag ht node hn

theorem everywhere_compound :
    Everywhere p (.compound ⟨entries⟩) ↔
      p (.compound ⟨entries⟩) ∧ ∀ entry ∈ entries, entry.2.Everywhere p := by
  simp only [Everywhere, nodes, nodesOfFields_eq_flatMap, List.mem_cons, List.mem_flatMap]
  constructor
  · intro h
    exact ⟨h _ (.inl rfl), fun entry he node hn => h node (.inr ⟨entry, he, hn⟩)⟩
  · rintro ⟨here, below⟩ node (rfl | ⟨entry, he, hn⟩)
    · exact here
    · exact below entry he node hn

theorem everywhere_ofCompounds {items : List Compound} :
    Everywhere p (.list (TagList.ofCompounds items)) ↔
      p (.list (TagList.ofCompounds items)) ∧ ∀ fields ∈ items, Everywhere p (.compound fields) := by
  rw [TagList.ofCompounds, everywhere_list, List.forall_mem_map]

/-- A tag that is neither a list nor a compound is its own only node. -/
theorem everywhere_leaf {tag : Tag} (leaf : tag.nodes = [tag]) : tag.Everywhere p ↔ p tag := by
  simp [Everywhere, leaf]

theorem everywhere_and {tag : Tag} :
    tag.Everywhere (fun node => p node ∧ q node) ↔ tag.Everywhere p ∧ tag.Everywhere q := by
  simp only [Everywhere]
  exact ⟨fun h => ⟨fun node hn => (h node hn).1, fun node hn => (h node hn).2⟩,
    fun h node hn => ⟨h.1 node hn, h.2 node hn⟩⟩

theorem depth_list_le_succ_iff :
    depth (.list ⟨element, items⟩) ≤ n + 1 ↔ ∀ tag ∈ items, tag.depth ≤ n := by
  rw [depth, Nat.add_le_add_iff_right, depthOfItems_le_iff]

theorem depth_compound_le_succ_iff :
    depth (.compound ⟨entries⟩) ≤ n + 1 ↔ ∀ entry ∈ entries, entry.2.depth ≤ n := by
  rw [depth, Nat.add_le_add_iff_right, depthOfFields_le_iff]

theorem depth_ofCompounds_le_succ_iff {items : List Compound} :
    depth (.list (TagList.ofCompounds items)) ≤ n + 1 ↔
      ∀ fields ∈ items, depth (.compound fields) ≤ n := by
  rw [TagList.ofCompounds, depth_list_le_succ_iff, List.forall_mem_map]

theorem succ_lt_depth_list_iff :
    n + 1 < depth (.list ⟨element, items⟩) ↔ ∃ tag ∈ items, n < tag.depth := by
  rw [← Nat.not_le, depth_list_le_succ_iff]
  simp

theorem succ_lt_depth_compound_iff :
    n + 1 < depth (.compound ⟨entries⟩) ↔ ∃ entry ∈ entries, n < entry.2.depth := by
  rw [← Nat.not_le, depth_compound_le_succ_iff]
  simp

theorem nodes_eq {tag : Tag} (hlist : tag.kind ≠ .list) (hcompound : tag.kind ≠ .compound) :
    tag.nodes = [tag] := by
  cases tag with
  | list l => exact absurd rfl hlist
  | compound fields => exact absurd rfl hcompound
  | _ => rfl

theorem depth_eq_zero {tag : Tag} (hlist : tag.kind ≠ .list) (hcompound : tag.kind ≠ .compound) :
    tag.depth = 0 := by
  cases tag with
  | list l => exact absurd rfl hlist
  | compound fields => exact absurd rfl hcompound
  | _ => rfl

end

/-- What a child is smaller than. -/
theorem sizeOf_lt_of_mem_children {tag child : Tag} (h : child ∈ tag.children) :
    sizeOf child < sizeOf tag := by
  cases tag with
  | list l =>
      rcases l with ⟨element, items⟩
      have := List.sizeOf_lt_of_mem (show child ∈ items from h)
      simp
      omega
  | compound c =>
      rcases c with ⟨entries⟩
      rcases List.mem_map.1 h with ⟨⟨key, tag⟩, he, rfl⟩
      have := List.sizeOf_lt_of_mem he
      simp at this ⊢
      omega
  | _ => simp [children] at h

/-- Induction over trees: a statement holds of a tag if it follows from its children. -/
@[elab_as_elim]
theorem byLayers {motive : Tag → Prop}
    (layer : ∀ tag, (∀ child ∈ tag.children, motive child) → motive tag) (tag : Tag) :
    motive tag :=
  layer tag fun child h =>
    have := sizeOf_lt_of_mem_children h
    byLayers layer child
termination_by sizeOf tag

/-! ## Regular trees -/

/-- A list, if the tag is one, has elements of the declared type only. -/
def UniformNode : Tag → Prop
  | .list l => TagList.Uniform l
  | _ => True

/-- A compound, if the tag is one, has no name twice. -/
def DistinctNode : Tag → Prop
  | .compound fields => fields.Distinct
  | _ => True

/-- A tree as the operations on lists and compounds leave it. -/
structure Regular (tag : Tag) : Prop where
  uniform : tag.Everywhere UniformNode
  distinct : tag.Everywhere DistinctNode

end Tag

end VoxelSchematic
