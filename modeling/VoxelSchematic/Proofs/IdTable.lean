import VoxelSchematic.Proofs.Registry

/-!
# Tables filled by assignments

What a table states when pairs are assigned to it one after the other, whatever names and numbers
come again.

* `Paired.id?_assign_eq_some_iff`: an assignment states its pair, drops those that have the name or
  the number in common with it, and leaves the others.
* `IdTable.assigned` is the table of a list of assignments. Both of its sides state the same pairs,
  and `name?_assigned` says which name keeps a number that was assigned to several.
* `sorted_pairs` and `Paired.size_eq`: the pairs of a table are listed once each, by ascending name.
-/

namespace VoxelSchematic.IdTable

variable {t t' : IdTable} {name other holder : String} {id number : UInt16}

/-! ## One assignment -/

theorem Paired.release (h : t.Paired) (name : String) : (t.release name).Paired := by
  intro other number
  have hpair := h other number
  rw [idOf_release, h.nameOf_release]
  by_cases hname : name = other
  · subst hname
    by_cases hholds : t.nameOf[number]? = some name
    · simp [hholds]
    · simp [hholds]
  · rw [if_neg hname, hpair]
    by_cases hholds : t.nameOf[number]? = some name
    · simp [hholds, hname]
    · simp [hholds]

/-- The name that loses a number holds it when the name that gets the number is gone. -/
theorem displaced_assign (t : IdTable) (name : String) (id : UInt16) :
    (t.assign name id).1 = (t.release name).name? id := by
  unfold assign
  cases hholder : (t.release name).name? id with
  | none => simp [hholder]
  | some holder => simp [hholder]

/-- Only another name can lose a number. -/
theorem Paired.displaced_assign_eq_some_iff (h : t.Paired) :
    (t.assign name id).1 = some holder ↔ t.name? id = some holder ∧ holder ≠ name := by
  unfold IdTable.name?
  rw [displaced_assign, IdTable.name?, h.nameOf_release]
  by_cases hholds : t.nameOf[id]? = some name
  · simp only [hholds, if_true, reduceCtorEq, Option.some.injEq, false_iff]
    rintro ⟨rfl, hne⟩
    exact hne rfl
  · rw [if_neg hholds]
    refine ⟨fun hholder => ⟨hholder, ?_⟩, And.left⟩
    rintro rfl
    exact hholds hholder

theorem Paired.nameOf_assign (h : t.Paired) (name : String) (id number : UInt16) :
    (t.assign name id).2.nameOf[number]? =
      if id = number then some name
      else if t.nameOf[number]? = some name then none else t.nameOf[number]? := by
  have hreleased := h.nameOf_release name
  unfold assign
  cases hholder : (t.release name).name? id with
  | none => simp only [hholder, nameOf_pair, hreleased]
  | some holder =>
      simp only [hholder, nameOf_pair, (h.release name).nameOf_release, hreleased]
      by_cases hid : id = number
      · rw [if_pos hid, if_pos hid]
      -- The holder had this number only, so that it loses no other.
      · have hother : (t.release name).nameOf[number]? ≠ some holder := fun hholds =>
          hid (Option.some.inj ((((h.release name) holder id).2 hholder).symm.trans
            (((h.release name) holder number).2 hholds)))
        rw [hreleased] at hother
        rw [if_neg hother]

theorem Paired.idOf_assign (h : t.Paired) (name other : String) (id : UInt16) :
    (t.assign name id).2.idOf[other]? =
      if name = other then some id
      else if t.idOf[other]? = some id then none else t.idOf[other]? := by
  have hholds : name ≠ other →
      (t.idOf[other]? = some id ↔ (t.release name).nameOf[id]? = some other) := by
    intro hname
    rw [← h.release name other id, idOf_release, if_neg hname]
  unfold assign
  cases hholder : (t.release name).name? id with
  | none =>
      simp only [hholder, idOf_pair, idOf_release]
      by_cases hname : name = other
      · rw [if_pos hname, if_pos hname]
      · have hnone : (t.release name).nameOf[id]? = none := hholder
        have hother : ¬t.idOf[other]? = some id := by simp [hholds hname, hnone]
        simp only [if_neg hname, if_neg hother]
  | some holder =>
      simp only [hholder, idOf_pair, idOf_release]
      by_cases hname : name = other
      · rw [if_pos hname, if_pos hname]
      · have hsome : (t.release name).nameOf[id]? = some holder := hholder
        have hother : t.idOf[other]? = some id ↔ holder = other := by simp [hholds hname, hsome]
        simp only [if_neg hname, hother]

/-- A pair is stated if it is the new one, or if it was stated and has nothing in common with it. -/
theorem Paired.id?_assign_eq_some_iff (h : t.Paired) :
    (t.assign name id).2.id? other = some number ↔
      (other = name ∧ number = id) ∨ (other ≠ name ∧ number ≠ id ∧ t.id? other = some number) := by
  unfold id?
  rw [h.idOf_assign]
  -- By cases, whether the name is the new one and whether it held the number.
  grind

theorem Paired.assign (h : t.Paired) (name : String) (id : UInt16) :
    (t.assign name id).2.Paired := by
  intro other number
  have hpair := h other number
  refine h.id?_assign_eq_some_iff.trans ?_
  rw [h.nameOf_assign, id?, hpair]
  -- Both sides drop the same pairs, the one by its number and the other by its name.
  grind

/-! ## Many assignments -/

/-- The table that assignments to an empty one lead to, one after the other. -/
def assigned (pairs : List (String × UInt16)) : IdTable :=
  pairs.foldl (fun t pair => (t.assign pair.1 pair.2).2) .empty

theorem assigned_append_singleton (pairs : List (String × UInt16)) (pair : String × UInt16) :
    assigned (pairs ++ [pair]) = ((assigned pairs).assign pair.1 pair.2).2 := by
  rw [assigned, List.foldl_append]
  rfl

theorem paired_assigned (pairs : List (String × UInt16)) : (assigned pairs).Paired := by
  induction pairs using List.reverseRecOn with
  | nil => exact paired_empty
  | append_singleton pairs pair ih =>
      rw [assigned_append_singleton]
      exact ih.assign pair.1 pair.2

/-- Nothing is stated that was not assigned. -/
theorem mem_of_name?_assigned {pairs : List (String × UInt16)}
    (h : (assigned pairs).name? id = some name) : (name, id) ∈ pairs := by
  induction pairs using List.reverseRecOn with
  | nil => simp [assigned, name?, empty] at h
  | append_singleton pairs pair ih =>
      rcases pair with ⟨last, number⟩
      rw [assigned_append_singleton, name?, (paired_assigned pairs).nameOf_assign] at h
      by_cases hid : number = id
      · simp only [hid, if_true, Option.some.injEq] at h
        simp [h, hid]
      · rw [if_neg hid] at h
        split at h
        · cases h
        · exact List.mem_append_left _ (ih h)

/-- Of distinct names that a number is assigned to, the last keeps it. -/
theorem name?_assigned {pairs : List (String × UInt16)} (h : (pairs.map Prod.fst).Nodup)
    (id : UInt16) : (assigned pairs).name? id =
      ((pairs.filter fun pair => pair.2 == id).getLast?).map Prod.fst := by
  induction pairs using List.reverseRecOn with
  | nil => simp [assigned, name?, empty]
  | append_singleton pairs pair ih =>
      rcases pair with ⟨last, number⟩
      rw [List.map_append, List.nodup_append] at h
      rcases h with ⟨hpairs, -, happart⟩
      -- The last name is new, so no older pair goes for its sake.
      have hnew : ¬(assigned pairs).nameOf[id]? = some last := fun hholds =>
        happart last (List.mem_map_of_mem (mem_of_name?_assigned hholds)) last (by simp) rfl
      rw [assigned_append_singleton, name?, (paired_assigned pairs).nameOf_assign, if_neg hnew,
        List.filter_append]
      by_cases hid : number = id
      · simp [hid]
      · have hrest := ih hpairs
        rw [name?] at hrest
        simp [hid, hrest]

/-! ## Listing the pairs -/

theorem mem_pairs_iff : (name, id) ∈ t.pairs ↔ t.id? name = some id :=
  Std.TreeMap.mem_toList_iff_getElem?_eq_some

/-- Each name is listed once, before those that are greater. -/
theorem sorted_pairs (t : IdTable) : t.pairs.Pairwise fun a b => a.1 < b.1 :=
  t.idOf.ordered_keys_toList.imp fun hless => compare_lt_iff_lt.1 hless

/-- Both sides of a table have one entry for each pair. -/
theorem Paired.size_eq (h : t.Paired) : t.size = t.pairs.length := by
  have hswapped : (t.nameOf.toList.map Prod.swap).Perm t.pairs := by
    have hnumbers : t.nameOf.toList.Nodup := t.nameOf.distinct_keys_toList.imp fun hne hsame =>
      hne (by rw [hsame]; exact Std.ReflOrd.compare_self)
    refine (List.perm_ext_iff_of_nodup (hnumbers.map Prod.swap_injective) t.nodup_pairs.of_map).2 ?_
    rintro ⟨name, id⟩
    rw [mem_pairs_iff, id?, h name id, ← Std.TreeMap.mem_toList_iff_getElem?_eq_some]
    simp
  rw [← hswapped.length_eq, List.length_map, Std.TreeMap.length_toList, size]

/-- Tables that know the same names state the same pairs. -/
theorem Paired.same (h : t.Paired) (h' : t'.Paired) (names : ∀ id, t.name? id = t'.name? id) :
    t.same t' = true := by
  have hids : ∀ name : String, t.idOf[name]? = t'.idOf[name]? := by
    intro name
    apply Option.ext
    intro id
    have hid : t.nameOf[id]? = t'.nameOf[id]? := names id
    rw [h name id, h' name id, hid]
  have hidOf : t.idOf.toList = t'.idOf.toList :=
    (Std.TreeMap.Equiv.of_forall_constGet?_eq hids).toList_eq
  have hnameOf : t.nameOf.toList = t'.nameOf.toList :=
    (Std.TreeMap.Equiv.of_forall_constGet?_eq names).toList_eq
  rw [IdTable.same, hidOf, hnameOf, beq_self_eq_true, beq_self_eq_true]
  rfl

end VoxelSchematic.IdTable
