import VoxelSchematic.Proofs.OrderedMap
import VoxelSchematic.Proofs.Rotation.HookChain
import VoxelSchematic.Proofs.Rotation.QuarterTurns
import VoxelSchematic.Rotation.Slope

/-!
# Turns of Carpenter's Blocks compose

No slope stands in two groups, and the groups have one, two or four members. So going along a
group composes (`turned?_turned?`), and so does the turning of trees (`turnTree_turnTree`), whether
they state a slope, none, one of no group, or something else in its place.
-/

namespace VoxelSchematic.Slope

variable {slope next : Int32} {group : List Int32} {m n : Nat} {tree : Compound} {tag : Int32 → Tag}

/-! ## Groups -/

theorem nodup_groups : groups.flatten.Nodup := by decide

theorem length_dvd_four : ∀ group ∈ groups, group.length ∣ 4 := by decide

/-- The numbers of all slopes fit into a short. -/
theorem toInt32_toInt16 (h : slope ∈ groups.flatten) : slope.toInt16.toInt32 = slope := by
  have hall : groups.flatten.all (fun slope => slope.toInt16.toInt32 == slope) = true := by rfl
  exact eq_of_beq (List.all_eq_true.1 hall slope h)

theorem advance?_eq_following? (group : List Int32) (slope : Int32) (n : Nat) :
    advance? group slope n = Cycle.following? group slope n := rfl

/-- A slope is looked for in its own group only. -/
theorem turned?_of_mem (hgroup : group ∈ groups) (h : slope ∈ group) (n : Nat) :
    turned? slope n = Cycle.following? group slope n := by
  rcases List.append_of_mem hgroup with ⟨before, behind, hsplit⟩
  have hnodup := nodup_groups
  rw [hsplit, List.flatten_append, List.flatten_cons] at hnodup
  have hnone : ∀ other ∈ before, advance? other slope n = none := by
    intro other hother
    refine Cycle.following?_of_not_mem (fun hslope => ?_) n
    exact (List.nodup_append.1 hnodup).2.2 slope (List.mem_flatten_of_mem hother hslope) slope
      (List.mem_append_left _ h) rfl
  rcases Cycle.following?_of_mem h n with ⟨next, hnext, -⟩
  rw [turned?, hsplit, List.findSome?_append, List.findSome?_eq_none_iff.2 hnone,
    List.findSome?_cons, advance?_eq_following?, hnext]
  rfl

theorem turned?_of_not_mem (h : slope ∉ groups.flatten) (n : Nat) : turned? slope n = none := by
  refine List.findSome?_eq_none_iff.2 fun group hgroup => ?_
  exact Cycle.following?_of_not_mem (fun hslope => h (List.mem_flatten_of_mem hgroup hslope)) n

/-- A slope has a group, in which any number of turns leads on, or it cannot be turned at all. -/
theorem grouped_or_fixed (slope : Int32) :
    (∃ group ∈ groups, slope ∈ group) ∨ ∀ n, turned? slope n = none := by
  by_cases h : slope ∈ groups.flatten
  · exact .inl (List.mem_flatten.1 h)
  · exact .inr (turned?_of_not_mem h)

theorem turned?_of_grouped (hgroup : group ∈ groups) (h : slope ∈ group) (n : Nat) :
    ∃ next ∈ group, turned? slope n = some next := by
  rcases Cycle.following?_of_mem h n with ⟨next, hnext, hmem⟩
  exact ⟨next, hmem, (turned?_of_mem hgroup h n).trans hnext⟩

theorem turned?_congr (h : m % 4 = n % 4) : turned? slope m = turned? slope n := by
  rcases grouped_or_fixed slope with ⟨group, hgroup, hslope⟩ | hfixed
  · rw [turned?_of_mem hgroup hslope, turned?_of_mem hgroup hslope]
    refine Cycle.following?_congr ?_
    rw [← Nat.mod_mod_of_dvd m (length_dvd_four group hgroup), h,
      Nat.mod_mod_of_dvd n (length_dvd_four group hgroup)]
  · rw [hfixed, hfixed]

/-- Without repeated slopes, one may stop on the way. -/
theorem turned?_turned? (hgroup : group ∈ groups) (hslope : slope ∈ group) (hnext : next ∈ group)
    (h : turned? slope m = some next) (n : Nat) : turned? next n = turned? slope (m + n) := by
  have hnodup : group.Nodup := (List.nodup_flatten.1 nodup_groups).1 group hgroup
  rw [turned?_of_mem hgroup hslope] at h
  rw [turned?_of_mem hgroup hslope, turned?_of_mem hgroup hnext]
  exact Cycle.following?_following? hnodup h n

/-! ## Trees -/

/-- A tree after some quarter turns about the vertical axis, with its slope written out even if
these come to nothing. -/
def turnTree (q : Int) (tree : Compound) : Compound :=
  match ofTree tree with
  | .error _ => tree
  | .ok (slope, tag) =>
      match turned? slope (q % 4).toNat with
      | some next => tree.insert field (tag next)
      | none => tree

/-- What is written is read again, in the same type. -/
theorem ofTree_insert (h : ofTree tree = .ok (slope, tag)) (hnext : next ∈ groups.flatten) :
    ofTree (tree.insert field (tag next)) = .ok (next, tag) := by
  unfold ofTree at h ⊢
  rw [OrderedMap.get?_insert, if_pos rfl]
  split at h
  · cases h
    simp only [toInt32_toInt16 hnext]
  · cases h
    simp only [toInt32_toInt16 hnext]
  · cases h
    rfl
  · cases h

theorem turnTree_turnTree (m n : Int) (tree : Compound) :
    turnTree m (turnTree n tree) = turnTree (m + n) tree := by
  cases hstated : ofTree tree with
  | error fault => simp only [turnTree, hstated]
  | ok stated =>
      rcases stated with ⟨slope, tag⟩
      rcases grouped_or_fixed slope with ⟨group, hgroup, hslope⟩ | hfixed
      · rcases turned?_of_grouped hgroup hslope (n % 4).toNat with ⟨next, hnext, hfirst⟩
        rcases turned?_of_grouped hgroup hslope ((m + n) % 4).toNat with ⟨last, -, hboth⟩
        have hsecond : turned? next (m % 4).toNat = some last := by
          rw [turned?_turned? hgroup hslope hnext hfirst, ← hboth]
          exact turned?_congr (by omega)
        have hwritten := ofTree_insert hstated (List.mem_flatten_of_mem hgroup hnext)
        simp only [turnTree, hstated, hfirst, hwritten, hsecond, hboth]
        exact OrderedMap.insert_insert_self
      · simp only [turnTree, hstated, hfixed]

theorem turnTree_congr {m n : Int} (h : m % 4 = n % 4) (tree : Compound) :
    turnTree m tree = turnTree n tree := by
  unfold turnTree
  rw [h]

/-- No turn at all changes nothing, if the tree has the field. -/
theorem turnTree_zero (h : tree.contains field = true) : turnTree 0 tree = tree := by
  rw [OrderedMap.contains_eq_isSome_get?, Option.isSome_iff_exists] at h
  rcases h with ⟨found, hfound⟩
  unfold turnTree
  cases hstated : ofTree tree with
  | error fault => rfl
  | ok stated =>
      rcases stated with ⟨slope, tag⟩
      have htag : tag slope = found := by
        unfold ofTree at hstated
        rw [hfound] at hstated
        cases found <;> cases hstated <;> simp
      rcases grouped_or_fixed slope with ⟨group, hgroup, hslope⟩ | hfixed
      · have hstay : turned? slope 0 = some slope :=
          (turned?_of_mem hgroup hslope 0).trans (Cycle.following?_zero hslope)
        simp only [Int.zero_emod, Int.toNat_zero, hstay, htag]
        exact OrderedMap.insert_of_get? hfound
      · simp only [hfixed]

/-- The hook turns a tree about the vertical axis, and about no other. -/
theorem result_hook (rotation : AxisRotation) (tree : Compound) :
    hook.result rotation tree =
      if rotation.y.val = 0 then tree else turnTree rotation.y.val tree := by
  have hmod : ((rotation.y.val : Int) % 4).toNat = rotation.y.val := by omega
  unfold Hook.result hook transform turnTree
  by_cases hy : rotation.y.val = 0
  · simp [hy]
  · rw [hmod]
    cases hstated : ofTree tree with
    | error fault => simp [hy, hstated]
    | ok stated =>
        rcases stated with ⟨slope, tag⟩
        cases hnext : turned? slope rotation.y.val with
        | none => simp [hy, hstated, hnext]
        | some next => simp [hy, hstated, hnext]

end VoxelSchematic.Slope
