import VoxelSchematic.Proofs.OrderedMap
import VoxelSchematic.Proofs.Tag.Nodes

/-!
# Repeated names

`Tag.settled` is what is left of a tree whose compounds may repeat names: of two fields of one
name, the first gives the place and the last gives the value.

* A tree without repeated names is settled already (`settled_of_distinct`).
* What settling leaves has no repeated name at any level (`distinct_settled`).
* Which place and which value a name gets is said by `OrderedMap.keys_ofList` and
  `OrderedMap.get?_ofList`.
-/

namespace VoxelSchematic

namespace Tag

mutual

/-- A tree in which each compound keeps the last value of each name, in the place of the first. -/
def settled : Tag → Tag
  | .list ⟨element, items⟩ => .list ⟨element, settledItems items⟩
  | .compound ⟨entries⟩ => .compound (.ofList (settledFields entries))
  | tag => tag

/-- Settled list elements. -/
def settledItems : List Tag → List Tag
  | [] => []
  | tag :: rest => tag.settled :: settledItems rest

/-- Fields with settled values, repeated names included. -/
def settledFields : List (String × Tag) → List (String × Tag)
  | [] => []
  | (key, tag) :: rest => (key, tag.settled) :: settledFields rest

end

section

variable {tag : Tag} {element : TagType} {items : List Tag} {entries : List (String × Tag)}

theorem settledItems_eq_map (items : List Tag) : settledItems items = items.map settled := by
  induction items with
  | nil => rfl
  | cons tag rest ih => simp [settledItems, ih]

theorem settledFields_eq_map (entries : List (String × Tag)) :
    settledFields entries = entries.map fun entry => (entry.1, entry.2.settled) := by
  induction entries with
  | nil => rfl
  | cons entry rest ih => simp [settledFields, ih]

theorem settled_list : settled (.list ⟨element, items⟩) = .list ⟨element, items.map settled⟩ := by
  rw [settled, settledItems_eq_map]

theorem settled_compound :
    settled (.compound ⟨entries⟩) =
      .compound (.ofList (entries.map fun entry => (entry.1, entry.2.settled))) := by
  rw [settled, settledFields_eq_map]

theorem kind_settled (tag : Tag) : tag.settled.kind = tag.kind := by
  cases tag <;> rfl

theorem map_fst_settledFields :
    (entries.map fun entry => (entry.1, entry.2.settled)).map Prod.fst = entries.map Prod.fst := by
  simp

/-- A tree without repeated names is settled already. -/
theorem settled_of_distinct (h : tag.Everywhere DistinctNode) : tag.settled = tag := by
  induction tag using byLayers with
  | layer tag ih =>
      cases tag with
      | list l =>
          rcases l with ⟨element, items⟩
          have hitems : items.map settled = items :=
            calc
              items.map settled = items.map id :=
                List.map_congr_left fun tag ht => ih tag ht ((everywhere_list.1 h).2 tag ht)
              _ = items := List.map_id items
          rw [settled_list, hitems]
      | compound fields =>
          rcases fields with ⟨entries⟩
          rcases everywhere_compound.1 h with ⟨hnodup, hall⟩
          have hvalue : ∀ entry ∈ entries, (entry.1, entry.2.settled) = entry := by
            intro entry he
            rw [ih entry.2 (List.mem_map_of_mem he) (hall entry he)]
          -- The values stay by induction, and distinct names stay where they are.
          have hentries : (entries.map fun entry => (entry.1, entry.2.settled)) = entries :=
            calc
              (entries.map fun entry => (entry.1, entry.2.settled)) = entries.map id :=
                List.map_congr_left hvalue
              _ = entries := List.map_id entries
          rw [settled_compound, hentries, OrderedMap.ofList_of_nodup hnodup]
      | _ => rfl

/-- Every compound of a settled tree has its names once. -/
theorem distinct_settled (tag : Tag) : tag.settled.Everywhere DistinctNode := by
  induction tag using byLayers with
  | layer tag ih =>
      cases tag with
      | list l =>
          rcases l with ⟨element, items⟩
          rw [settled_list, everywhere_list]
          refine ⟨trivial, fun tag ht => ?_⟩
          rcases List.mem_map.1 ht with ⟨raw, hraw, rfl⟩
          exact ih raw hraw
      | compound fields =>
          rcases fields with ⟨entries⟩
          -- Every field that is left was one of the pairs, with its value settled.
          rw [settled_compound]
          refine everywhere_compound.2 ⟨OrderedMap.distinct_ofList _, fun entry he => ?_⟩
          rcases List.mem_map.1 (OrderedMap.mem_of_mem_ofList he) with ⟨raw, hraw, rfl⟩
          exact ih raw.2 (List.mem_map_of_mem hraw)
      | _ => exact (everywhere_leaf rfl).2 trivial

theorem depth_settled_le {n : Nat} (h : tag.depth ≤ n) : tag.settled.depth ≤ n := by
  induction tag using byLayers generalizing n with
  | layer tag ih =>
      cases tag with
      | list l =>
          rcases l with ⟨element, items⟩
          cases n with
          | zero => simp [depth] at h
          | succ n =>
              rw [settled_list, depth_list_le_succ_iff]
              intro tag ht
              rcases List.mem_map.1 ht with ⟨raw, hraw, rfl⟩
              exact ih raw hraw (depth_list_le_succ_iff.1 h raw hraw)
      | compound fields =>
          rcases fields with ⟨entries⟩
          cases n with
          | zero => simp [depth] at h
          | succ n =>
              rw [settled_compound]
              refine depth_compound_le_succ_iff.2 fun entry he => ?_
              rcases List.mem_map.1 (OrderedMap.mem_of_mem_ofList he) with ⟨raw, hraw, rfl⟩
              exact ih raw.2 (List.mem_map_of_mem hraw) (depth_compound_le_succ_iff.1 h raw hraw)
      | _ => exact h

end

end Tag

end VoxelSchematic
