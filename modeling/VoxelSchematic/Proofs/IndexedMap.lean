import VoxelSchematic.IndexedMap
import VoxelSchematic.Proofs.OrderedMap

/-!
# Indexed maps are association lists

Three descriptions of a map that keeps the order of its keys, and one run for all of them.

* `Entries` is the plain one: a list of pairs, in which an insertion replaces in place or appends
  and an erasure takes one pair out.
* `OrderedMap` finds a key by searching for its slot.
* `IndexedMap` looks the slot up. `IndexedMap.Represents` is the invariant, that its index knows the
  slot of every key and of nothing else, and each operation keeps it.

`IndexedMap.run_agrees` says that after any operations the three hold the same and have answered
the same.
-/

namespace VoxelSchematic

variable {α : Type}

namespace OrderedMap

variable {m : OrderedMap α} {key other : String} {value : α} {i : Nat}

theorem slot?_congr {m m' : OrderedMap α} (h : m.keys = m'.keys) (key : String) :
    m.slot? key = m'.slot? key := by
  rw [slot?_eq_findIdx?, h, ← slot?_eq_findIdx?]

theorem slot?_eq_some_iff (h : m.Distinct) : m.slot? key = some i ↔ m.keys[i]? = some key := by
  refine ⟨getElem?_keys_of_slot?, fun hkey => ?_⟩
  rcases List.getElem?_eq_some_iff.1 hkey with ⟨hi, hkey⟩
  rw [slot?_eq_findIdx?]
  refine List.findIdx?_eq_some_iff_getElem.2 ⟨hi, by simpa using hkey, fun j hj hsame => ?_⟩
  -- An earlier slot with the key would be a second one.
  have hij : m.keys[j] = m.keys[i] := (eq_of_beq hsame).trans hkey.symm
  exact absurd ((List.Nodup.getElem_inj_iff h).1 hij) (Nat.ne_of_lt hj)

theorem entry_of_slot? (h : m.slot? key = some i) :
    ∃ value, m.entries[i]? = some (key, value) ∧ m.get? key = some value := by
  have hkey := getElem?_keys_of_slot? h
  rw [keys, List.getElem?_map] at hkey
  rcases Option.map_eq_some_iff.1 hkey with ⟨⟨name, value⟩, hentry, rfl⟩
  exact ⟨value, hentry, by simp [get?, h, hentry]⟩

/-- Another value in the slot of a key is an insertion. -/
theorem modify_eq_insert (h : m.slot? key = some i) (value : α) :
    (m.modify key fun _ => value) = m.insert key value := by
  rcases entry_of_slot? h with ⟨old, hentry, -⟩
  simp only [modify, insert, h]
  congr 1
  apply List.ext_getElem? fun j => ?_
  rw [List.getElem?_modify, List.getElem?_set]
  by_cases hij : i = j
  · rcases List.getElem?_eq_some_iff.1 hentry with ⟨hbound, hname⟩
    simp [← hij, hbound, hname]
  · simp [hij]

theorem get?_of_slot?_eq_none (h : m.slot? key = none) : m.get? key = none := by
  simp [get?, h]

theorem slot?_insert_self_of_not_mem (h : key ∉ m.keys) (value : α) :
    (m.insert key value).slot? key = some m.size := by
  have hsize : m.keys.length = m.size := List.length_map ..
  rw [slot?_eq_findIdx?, keys_insert_of_not_mem value h, List.findIdx?_append, ← slot?_eq_findIdx?,
    slot?_eq_none_iff.2 h, ← hsize]
  simp

theorem keys_eraseIdx (m : OrderedMap α) (i : Nat) :
    (⟨m.entries.eraseIdx i⟩ : OrderedMap α).keys = m.keys.eraseIdx i :=
  (List.eraseIdx_map ..).symm

/-- The keys behind a gap are those that stood behind the entry that left it. -/
theorem map_fst_drop_eraseIdx (m : OrderedMap α) (i : Nat) :
    ((m.entries.eraseIdx i).drop i).map Prod.fst = m.keys.drop (i + 1) := by
  rw [List.map_drop, ← List.eraseIdx_map]
  apply List.ext_getElem? fun j => ?_
  have hge : ¬i + j < i := by omega
  simp [List.getElem?_eraseIdx, hge, keys, Nat.add_right_comm]

theorem mem_drop_keys_iff (h : m.Distinct) :
    key ∈ m.keys.drop (i + 1) ↔ ∃ j, i < j ∧ m.slot? key = some j := by
  rw [List.mem_iff_getElem?]
  constructor
  · rintro ⟨j, hj⟩
    rw [List.getElem?_drop] at hj
    exact ⟨i + 1 + j, by omega, (slot?_eq_some_iff h).2 hj⟩
  · rintro ⟨j, hlt, hj⟩
    refine ⟨j - (i + 1), ?_⟩
    rw [List.getElem?_drop, Nat.add_sub_cancel' hlt]
    exact getElem?_keys_of_slot? hj

theorem slot?_erase_self (h : m.Distinct) : (m.erase key).slot? key = none :=
  slot?_eq_none_iff.2 (get?_eq_none_iff.1 (get?_erase_self h))

/-- Of the slots of other keys, those behind the one of the erased key move up. -/
theorem slot?_erase_of_ne (h : m.Distinct) (hslot : m.slot? key = some i) (hne : key ≠ other) :
    (m.erase key).slot? other = (m.slot? other).map fun j => if j < i then j else j - 1 := by
  have herase : m.erase key = ⟨m.entries.eraseIdx i⟩ := by simp [erase, hslot]
  have hkeys : (m.erase key).keys = m.keys.eraseIdx i := by rw [herase, keys_eraseIdx]
  cases hother : m.slot? other with
  | none =>
      apply slot?_eq_none_iff.2
      intro hmem
      rw [hkeys] at hmem
      exact slot?_eq_none_iff.1 hother (List.mem_of_mem_eraseIdx hmem)
  | some j =>
      have hj := getElem?_keys_of_slot? hother
      have hij : j ≠ i := fun hsame => slot?_ne_of_ne hslot hne (hsame ▸ hother)
      apply (slot?_eq_some_iff (h.erase key)).2
      rw [hkeys, List.getElem?_eraseIdx]
      by_cases hlt : j < i
      · simp [hlt, hj]
      · -- The slot is behind the gap, so it is the next of one that is not before it.
        rcases Nat.exists_eq_succ_of_ne_zero (show j ≠ 0 by omega) with ⟨k, rfl⟩
        have hk : ¬k < i := by omega
        simpa [hlt, hk] using hj

end OrderedMap

namespace IndexedMap

variable {m : IndexedMap α} {o : OrderedMap α} {key other : String} {value : α}
  {pairs : List (String × α)}

/-! ## The index -/

/-- An indexed map holds the entries of an ordered map, and its index knows where. -/
structure Represents (m : IndexedMap α) (o : OrderedMap α) : Prop where
  entries : m.entries.toList = o.entries
  index : ∀ key, m.index[key]? = o.slot? key
  distinct : o.Distinct

theorem represents_empty : Represents (empty : IndexedMap α) .empty :=
  ⟨rfl, fun _ => Std.HashMap.getElem?_empty, OrderedMap.distinct_empty⟩

theorem Represents.getElem? (h : m.Represents o) (i : Nat) : m.entries[i]? = o.entries[i]? := by
  rw [← Array.getElem?_toList, h.entries]

/-- No look-up leads outside the entries or to another key. -/
theorem Represents.get? (h : m.Represents o) (key : String) : m.get? key = some (o.get? key) := by
  unfold IndexedMap.get?
  rw [h.index]
  cases hslot : o.slot? key with
  | none => simp [OrderedMap.get?_of_slot?_eq_none hslot]
  | some i =>
      rcases OrderedMap.entry_of_slot? hslot with ⟨value, hentry, hget⟩
      simp [h.getElem?, hentry, hget]

theorem Represents.contains (h : m.Represents o) (key : String) : m.contains key = o.contains key := by
  rw [IndexedMap.contains, Std.HashMap.contains_eq_isSome_getElem?, h.index, OrderedMap.contains]

/-- Another value at the position of a key. -/
theorem Represents.set {i : Nat} (h : m.Represents o) (hslot : o.slot? key = some i) (value : α) :
    Represents { m with entries := m.entries.setIfInBounds i (key, value) }
      ⟨o.entries.set i (key, value)⟩ := by
  have hkeys : (⟨o.entries.set i (key, value)⟩ : OrderedMap α).keys = o.keys := by
    have hmem : key ∈ o.keys := List.mem_of_getElem? (OrderedMap.getElem?_keys_of_slot? hslot)
    have hinsert : o.insert key value = ⟨o.entries.set i (key, value)⟩ := by
      simp [OrderedMap.insert, hslot]
    rw [← hinsert, OrderedMap.keys_insert_of_mem value hmem]
  refine ⟨?_, fun name => ?_, ?_⟩
  · rw [Array.toList_setIfInBounds, h.entries]
  · rw [h.index, OrderedMap.slot?_congr hkeys]
  · rw [OrderedMap.Distinct, hkeys]
    exact h.distinct

theorem Represents.replace (h : m.Represents o) (key : String) (value : α) :
    ∃ m', m.replace key value = some (o.get? key, m') ∧
      m'.Represents (o.modify key fun _ => value) := by
  unfold IndexedMap.replace
  rw [h.index]
  cases hslot : o.slot? key with
  | none =>
      refine ⟨m, by simp [OrderedMap.get?_of_slot?_eq_none hslot], ?_⟩
      simpa [OrderedMap.modify, hslot] using h
  | some i =>
      rcases OrderedMap.entry_of_slot? hslot with ⟨old, hentry, hget⟩
      have hmodify : (o.modify key fun _ => value) = ⟨o.entries.set i (key, value)⟩ := by
        rw [OrderedMap.modify_eq_insert hslot]
        simp [OrderedMap.insert, hslot]
      refine ⟨_, by simp [h.getElem?, hentry, hget]; rfl, ?_⟩
      rw [hmodify]
      exact h.set hslot value

theorem Represents.insert (h : m.Represents o) (key : String) (value : α) :
    ∃ m', m.insert key value = some (o.get? key, m') ∧ m'.Represents (o.insert key value) := by
  unfold IndexedMap.insert
  rw [h.index]
  cases hslot : o.slot? key with
  | none =>
      have hnew := OrderedMap.slot?_eq_none_iff.1 hslot
      refine ⟨_, by simp [OrderedMap.get?_of_slot?_eq_none hslot]; rfl, ?_, fun name => ?_,
        h.distinct.insert key value⟩
      · simp [OrderedMap.insert, hslot, h.entries]
      · -- The new position is the number of entries, which is the slot behind the last one.
        have hsize : m.entries.size = o.size := by
          rw [← Array.length_toList, h.entries, OrderedMap.size]
        rw [Std.HashMap.getElem?_insert, hsize]
        by_cases hname : key = name
        · subst hname
          simp [OrderedMap.slot?_insert_self_of_not_mem hnew value]
        · simp [hname, h.index, OrderedMap.slot?_insert_of_ne hname]
  | some i =>
      rcases OrderedMap.entry_of_slot? hslot with ⟨old, hentry, hget⟩
      have hinsert : o.insert key value = ⟨o.entries.set i (key, value)⟩ := by
        simp [OrderedMap.insert, hslot]
      refine ⟨_, by simp [h.getElem?, hentry, hget]; rfl, ?_⟩
      rw [hinsert]
      exact h.set hslot value

/-- Positions that are not zero can be lowered, one after the other. -/
theorem foldlM_lower {names : List String} {index : Std.HashMap String Nat} (hnames : names.Nodup)
    (hpos : ∀ name ∈ names, ∃ position, index[name]? = some (position + 1)) :
    ∃ index', names.foldlM lower index = some index' ∧ ∀ key, index'[key]? =
      if key ∈ names then index[key]?.map (· - 1) else index[key]? := by
  induction names generalizing index with
  | nil => exact ⟨index, rfl, fun key => by simp⟩
  | cons name rest ih =>
      rcases List.nodup_cons.1 hnames with ⟨hnew, hrest⟩
      rcases hpos name List.mem_cons_self with ⟨position, hname⟩
      have hlower : lower index name = some (index.insert name position) := by simp [lower, hname]
      -- Lowering one name leaves the others above zero.
      have hothers : ∀ other ∈ rest, (index.insert name position)[other]? = index[other]? := by
        intro other hother
        have hne : name ≠ other := fun hsame => hnew (hsame ▸ hother)
        simp [Std.HashMap.getElem?_insert, hne]
      rcases ih hrest fun other hother => by
          rw [hothers other hother]
          exact hpos other (List.mem_cons_of_mem name hother) with ⟨index', hfold, hindex'⟩
      refine ⟨index', by simp [List.foldlM_cons, hlower, hfold], fun key => ?_⟩
      rw [hindex']
      by_cases hkey : key = name
      · subst hkey
        simp [hnew, hname]
      · by_cases hmem : key ∈ rest
        · simp [hkey, hmem, hothers key hmem]
        · simp [hkey, hmem, Std.HashMap.getElem?_insert, Ne.symm hkey]

/-- With the key taken out and the positions behind it lowered, an index is one of what remains. -/
theorem Represents.lowered {i : Nat} (h : m.Represents o) (hslot : o.slot? key = some i) :
    ∃ index', (o.keys.drop (i + 1)).foldlM lower (m.index.erase key) = some index' ∧
      ∀ name, index'[name]? = (o.erase key).slot? name := by
  have hmem : ∀ name, name ∈ o.keys.drop (i + 1) ↔ ∃ j, i < j ∧ o.slot? name = some j :=
    fun _ => OrderedMap.mem_drop_keys_iff h.distinct
  have hindex : ∀ name, key ≠ name → (m.index.erase key)[name]? = o.slot? name := by
    intro name hne
    simp [Std.HashMap.getElem?_erase, hne, h.index]
  have hself : key ∉ o.keys.drop (i + 1) := by
    rw [hmem, hslot]
    rintro ⟨j, hlt, hj⟩
    exact absurd (Option.some.inj hj) (Nat.ne_of_lt hlt)
  -- Whatever is behind a position is not at zero, so that no step of the loop underflows.
  have hpos : ∀ name ∈ o.keys.drop (i + 1),
      ∃ position, (m.index.erase key)[name]? = some (position + 1) := by
    intro name hname
    rcases (hmem name).1 hname with ⟨j, hlt, hj⟩
    refine ⟨j - 1, ?_⟩
    rw [hindex name fun hsame => hself (hsame ▸ hname), hj, Nat.sub_add_cancel (by omega)]
  have hnodup : (o.keys.drop (i + 1)).Nodup := h.distinct.sublist (List.drop_sublist _ _)
  rcases foldlM_lower hnodup hpos with ⟨index', hfold, hindex'⟩
  refine ⟨index', hfold, fun name => ?_⟩
  rw [hindex']
  by_cases hname : key = name
  · subst hname
    simp [hself, OrderedMap.slot?_erase_self h.distinct]
  · rw [hindex name hname, OrderedMap.slot?_erase_of_ne h.distinct hslot hname]
    cases hother : o.slot? name with
    | none => simp
    | some j =>
        have hbehind : name ∈ o.keys.drop (i + 1) ↔ i < j := by simp [hmem, hother]
        have hij : j ≠ i := fun hsame => OrderedMap.slot?_ne_of_ne hslot hname (hsame ▸ hother)
        by_cases hlt : j < i
        · have hge : ¬i < j := by omega
          simp [hbehind, hlt, hge]
        · have hgt : i < j := by omega
          simp [hbehind, hlt, hgt]

theorem Represents.erase (h : m.Represents o) (key : String) :
    ∃ m', m.erase key = some (o.get? key, m') ∧ m'.Represents (o.erase key) := by
  unfold IndexedMap.erase
  rw [h.index]
  cases hslot : o.slot? key with
  | none =>
      refine ⟨m, by simp [OrderedMap.get?_of_slot?_eq_none hslot], ?_⟩
      simpa [OrderedMap.erase, hslot] using h
  | some i =>
      rcases OrderedMap.entry_of_slot? hslot with ⟨value, hentry, hget⟩
      have herase : o.erase key = ⟨o.entries.eraseIdx i⟩ := by simp [OrderedMap.erase, hslot]
      rcases h.lowered hslot with ⟨index', hfold, hindex'⟩
      rw [← OrderedMap.map_fst_drop_eraseIdx, List.foldlM_map] at hfold
      refine ⟨⟨m.entries.eraseIdxIfInBounds i, index'⟩, ?_, ?_, hindex', h.distinct.erase key⟩
      · simp [h.getElem?, hentry, hget, h.entries, hfold]
      · rw [herase, Array.toList_eraseIdxIfInBounds, h.entries]

theorem Represents.extend (h : m.Represents o) (pairs : List (String × α)) :
    ∃ m', m.extend pairs = some m' ∧ m'.Represents (o.insertMany pairs) := by
  induction pairs generalizing m o with
  | nil => exact ⟨m, rfl, h⟩
  | cons pair rest ih =>
      rcases h.insert pair.1 pair.2 with ⟨m', hinsert, hm'⟩
      rcases ih hm' with ⟨last, hrest, hlast⟩
      refine ⟨last, ?_, hlast⟩
      unfold IndexedMap.extend at hrest ⊢
      simpa [List.foldlM_cons, hinsert] using hrest

end IndexedMap

/-! ## Association lists -/

/-- What is done to a map. -/
inductive MapOp (α : Type) where
  | insert (key : String) (value : α)
  | erase (key : String)
  | replace (key : String) (value : α)
  | extend (pairs : List (String × α))
  /-- A new map in the place of the old one. -/
  | collect (pairs : List (String × α))

namespace Entries

/-- The value of a key is replaced in its place, or a pair comes to the end. -/
def put (entries : List (String × α)) (key : String) (value : α) : List (String × α) :=
  if key ∈ entries.map Prod.fst then
    entries.map fun entry => if entry.1 = key then (key, value) else entry
  else entries ++ [(key, value)]

def putAll (entries pairs : List (String × α)) : List (String × α) :=
  pairs.foldl (fun entries pair => put entries pair.1 pair.2) entries

/-- An operation on an association list. -/
def perform : MapOp α → StateM (List (String × α)) (Option α)
  | .insert key value => fun entries => (entries.lookup key, put entries key value)
  | .erase key => fun entries => (entries.lookup key, entries.eraseP fun entry => entry.1 == key)
  | .replace key value => fun entries =>
      (entries.lookup key, entries.map fun entry => if entry.1 = key then (key, value) else entry)
  | .extend pairs => fun entries => (none, putAll entries pairs)
  | .collect pairs => fun _ => (none, putAll [] pairs)

end Entries

namespace OrderedMap

/-- An operation on an ordered map. -/
def perform : MapOp α → StateM (OrderedMap α) (Option α)
  | .insert key value => fun m => m.getThenInsert? key value
  | .erase key => fun m => m.getThenErase? key
  | .replace key value => fun m => (m.get? key, m.modify key fun _ => value)
  | .extend pairs => fun m => (none, m.insertMany pairs)
  | .collect pairs => fun _ => (none, ofList pairs)

variable {m : OrderedMap α} {key : String} {value : α}

theorem get?_eq_lookup (m : OrderedMap α) (key : String) : m.get? key = m.entries.lookup key := by
  rcases m with ⟨entries⟩
  induction entries with
  | nil => rfl
  | cons entry rest ih =>
      rw [get?_cons, List.lookup_cons]
      by_cases h : entry.1 = key
      · simp [h]
      · have hne : (key == entry.1) = false := by simpa using Ne.symm h
        simpa [h, hne] using ih

/-- With no name twice, only one entry has the name. -/
theorem map_replace_of_not_mem {rest : List (String × α)} (h : key ∉ rest.map Prod.fst) (value : α) :
    (rest.map fun entry => if entry.1 = key then (key, value) else entry) = rest := by
  refine List.map_congr_left ?_ |>.trans (List.map_id rest)
  intro entry hentry
  have hne : entry.1 ≠ key := fun hsame => h (hsame ▸ List.mem_map_of_mem hentry)
  simp [hne]

theorem entries_insert (h : m.Distinct) (key : String) (value : α) :
    (m.insert key value).entries = Entries.put m.entries key value := by
  rcases m with ⟨entries⟩
  induction entries with
  | nil => rfl
  | cons entry rest ih =>
      rcases List.nodup_cons.1 h with ⟨hnew, hrest⟩
      rw [insert_cons]
      by_cases hkey : entry.1 = key
      · have hbehind := map_replace_of_not_mem (hkey ▸ hnew) value
        simp [Entries.put, hkey, hbehind]
      · have hmem : key ∈ (entry :: rest).map Prod.fst ↔ key ∈ rest.map Prod.fst := by
          simp [Ne.symm hkey]
        rw [if_neg hkey]
        simp only [ih hrest, Entries.put, hmem]
        split
        · simp [hkey]
        · simp

theorem entries_modify (h : m.Distinct) (key : String) (value : α) :
    (m.modify key fun _ => value).entries =
      m.entries.map fun entry => if entry.1 = key then (key, value) else entry := by
  by_cases hmem : key ∈ m.keys
  · have hinsert : m.modify key (fun _ => value) = m.insert key value := by
      cases hslot : m.slot? key with
      | none => exact absurd hmem (slot?_eq_none_iff.1 hslot)
      | some i => exact modify_eq_insert hslot value
    rw [hinsert, entries_insert h]
    exact if_pos hmem
  · have hslot := slot?_eq_none_iff.2 hmem
    rw [map_replace_of_not_mem hmem]
    simp [modify, hslot]

theorem entries_erase (m : OrderedMap α) (key : String) :
    (m.erase key).entries = m.entries.eraseP fun entry => entry.1 == key := by
  rcases m with ⟨entries⟩
  induction entries with
  | nil => rfl
  | cons entry rest ih =>
      rw [erase_cons, List.eraseP_cons]
      by_cases h : entry.1 = key
      · simp [h]
      · have hne : (entry.1 == key) = false := by simpa using h
        simp [h, hne, ih]

theorem entries_insertMany (h : m.Distinct) (pairs : List (String × α)) :
    (m.insertMany pairs).entries = Entries.putAll m.entries pairs := by
  induction pairs generalizing m with
  | nil => rfl
  | cons pair rest ih =>
      rw [insertMany_cons, ih (h.insert pair.1 pair.2), entries_insert h]
      rfl

/-- An operation on an ordered map is that operation on the list of its entries. -/
theorem run_perform (h : m.Distinct) (op : MapOp α) :
    ((Entries.perform op).run m.entries =
      (((perform op).run m).1, ((perform op).run m).2.entries)) ∧ ((perform op).run m).2.Distinct := by
  cases op with
  | insert key value =>
      exact ⟨Prod.ext (get?_eq_lookup m key).symm (entries_insert h key value).symm,
        h.insert key value⟩
  | erase key =>
      exact ⟨Prod.ext (get?_eq_lookup m key).symm (entries_erase m key).symm, h.erase key⟩
  | replace key value =>
      refine ⟨Prod.ext (get?_eq_lookup m key).symm (entries_modify h key value).symm, ?_⟩
      have hkeys : (m.modify key fun _ => value).keys = m.keys := keys_modify m key _
      exact (congrArg List.Nodup hkeys).mpr h
  | extend pairs =>
      exact ⟨Prod.ext rfl (entries_insertMany h pairs).symm, h.insertMany pairs⟩
  | collect pairs =>
      exact ⟨Prod.ext rfl (entries_insertMany distinct_empty pairs).symm, distinct_ofList pairs⟩

end OrderedMap

namespace IndexedMap

/-- An operation on an indexed map. -/
def perform : MapOp α → StateT (IndexedMap α) Option (Option α)
  | .insert key value => fun m => m.insert key value
  | .erase key => fun m => m.erase key
  | .replace key value => fun m => m.replace key value
  | .extend pairs => fun m => (m.extend pairs).map fun m => (none, m)
  | .collect pairs => fun _ => (collect pairs).map fun m => (none, m)

variable {m : IndexedMap α} {o : OrderedMap α}

/-- An operation on an indexed map is that operation on the ordered map that it represents. -/
theorem Represents.perform (h : m.Represents o) (op : MapOp α) :
    ∃ m', (IndexedMap.perform op).run m = some (((OrderedMap.perform op).run o).1, m') ∧
      m'.Represents ((OrderedMap.perform op).run o).2 := by
  cases op with
  | insert key value => exact h.insert key value
  | erase key => exact h.erase key
  | replace key value => exact h.replace key value
  | extend pairs =>
      rcases h.extend pairs with ⟨m', hextend, hm'⟩
      exact ⟨m', congrArg (Option.map fun m => (none, m)) hextend, hm'⟩
  | collect pairs =>
      rcases represents_empty.extend pairs with ⟨m', hextend, hm'⟩
      exact ⟨m', congrArg (Option.map fun m => (none, m)) hextend, hm'⟩

end IndexedMap

/-! ## Many operations -/

section

variable {σ β : Type} (step : MapOp α → StateM σ β) (ops : List (MapOp α)) (s : σ)

theorem run_mapM_cons (op : MapOp α) :
    ((op :: ops).mapM step).run s =
      (((step op).run s).1 :: ((ops.mapM step).run ((step op).run s).2).1,
        ((ops.mapM step).run ((step op).run s).2).2) := by
  rw [List.mapM_cons]
  rfl

theorem run_mapM_append (others : List (MapOp α)) :
    ((ops ++ others).mapM step).run s =
      (((ops.mapM step).run s).1 ++ ((others.mapM step).run ((ops.mapM step).run s).2).1,
        ((others.mapM step).run ((ops.mapM step).run s).2).2) := by
  rw [List.mapM_append]
  rfl

end

/-- A key that is erased and comes back comes last. -/
theorem Entries.run_erase_insert {entries : List (String × α)} (h : (entries.map Prod.fst).Nodup)
    (key : String) (value : α) :
    ([MapOp.erase key, .insert key value].mapM Entries.perform).run entries =
      ([entries.lookup key, none],
        entries.eraseP (fun entry => entry.1 == key) ++ [(key, value)]) := by
  have hgone : ((⟨entries⟩ : OrderedMap α).erase key).get? key = none := OrderedMap.get?_erase_self h
  have herase := OrderedMap.entries_erase ⟨entries⟩ key
  have hlookup : (entries.eraseP fun entry => entry.1 == key).lookup key = none := by
    rw [← herase, ← OrderedMap.get?_eq_lookup, hgone]
  have hput : Entries.put (entries.eraseP fun entry => entry.1 == key) key value =
      (entries.eraseP fun entry => entry.1 == key) ++ [(key, value)] := by
    rw [← herase]
    exact if_neg (OrderedMap.get?_eq_none_iff.1 hgone)
  calc
    ([MapOp.erase key, .insert key value].mapM Entries.perform).run entries =
        ([entries.lookup key, (entries.eraseP fun entry => entry.1 == key).lookup key],
          Entries.put (entries.eraseP fun entry => entry.1 == key) key value) := by
            rw [run_mapM_cons, run_mapM_cons]
            rfl
    _ = _ := by rw [hlookup, hput]

theorem OrderedMap.run_mapM_entries {o : OrderedMap α} (h : o.Distinct) (ops : List (MapOp α)) :
    ((ops.mapM Entries.perform).run o.entries =
      (((ops.mapM OrderedMap.perform).run o).1, ((ops.mapM OrderedMap.perform).run o).2.entries)) ∧
      ((ops.mapM OrderedMap.perform).run o).2.Distinct := by
  induction ops generalizing o with
  | nil => exact ⟨rfl, h⟩
  | cons op rest ih =>
      rcases OrderedMap.run_perform h op with ⟨hop, hdistinct⟩
      rcases ih hdistinct with ⟨hrest, hlast⟩
      rw [run_mapM_cons, run_mapM_cons, hop, hrest]
      exact ⟨rfl, hlast⟩

namespace IndexedMap

variable {m : IndexedMap α} {o : OrderedMap α}

theorem Represents.run_mapM (h : m.Represents o) (ops : List (MapOp α)) :
    ∃ m', (ops.mapM IndexedMap.perform).run m =
        some (((ops.mapM OrderedMap.perform).run o).1, m') ∧
      m'.Represents ((ops.mapM OrderedMap.perform).run o).2 := by
  induction ops generalizing m o with
  | nil => exact ⟨m, rfl, h⟩
  | cons op rest ih =>
      rcases h.perform op with ⟨m', hop, hm'⟩
      rcases ih hm' with ⟨last, hrest, hlast⟩
      rw [run_mapM_cons]
      exact ⟨last, by simp [List.mapM_cons, hop, hrest], hlast⟩

/-- All that can be read from an indexed map is what the list of its pairs says. -/
structure Agrees (m : IndexedMap α) (entries : List (String × α)) : Prop where
  distinct : (entries.map Prod.fst).Nodup
  index : ∀ (key : String) (i : Nat),
    m.index[key]? = some i ↔ (entries.map Prod.fst)[i]? = some key
  pairs : m.entries.toList = entries
  size : m.size = entries.length
  keys : m.keys = entries.map Prod.fst
  values : m.values = entries.map Prod.snd
  get? : ∀ key, m.get? key = some (entries.lookup key)
  contains : ∀ key, m.contains key = (entries.lookup key).isSome

theorem Represents.agrees (h : m.Represents o) : m.Agrees o.entries where
  distinct := h.distinct
  index := by
    intro key i
    rw [h.index]
    exact OrderedMap.slot?_eq_some_iff h.distinct
  pairs := h.entries
  size := by rw [IndexedMap.size, ← Array.length_toList, h.entries]
  keys := by rw [IndexedMap.keys, h.entries]
  values := by rw [IndexedMap.values, h.entries]
  get? := by
    intro key
    rw [h.get?, OrderedMap.get?_eq_lookup]
  contains := by
    intro key
    rw [h.contains, OrderedMap.contains_eq_isSome_get?, OrderedMap.get?_eq_lookup]

/-- After any operations on the empty map, the indexed map, the ordered map and the plain list hold
the same pairs in the same order and have given the same answers. A key that is erased and comes
back comes last. -/
theorem run_agrees (ops : List (MapOp α)) :
    ∃ answers entries m,
      (ops.mapM Entries.perform).run [] = (answers, entries) ∧
      (ops.mapM OrderedMap.perform).run .empty = (answers, ⟨entries⟩) ∧
      (ops.mapM IndexedMap.perform).run .empty = some (answers, m) ∧
      m.Agrees entries ∧
      (∀ key, (OrderedMap.mk entries).get? key = entries.lookup key ∧
        (OrderedMap.mk entries).contains key = (entries.lookup key).isSome) ∧
      ∀ key value,
        ((ops ++ [MapOp.erase key, .insert key value]).mapM Entries.perform).run [] =
          (answers ++ [entries.lookup key, none],
            entries.eraseP (fun entry => entry.1 == key) ++ [(key, value)]) := by
  rcases OrderedMap.run_mapM_entries OrderedMap.distinct_empty ops with ⟨hlist, hdistinct⟩
  rcases represents_empty.run_mapM ops with ⟨m, hindexed, hm⟩
  refine ⟨_, _, m, hlist, rfl, hindexed, hm.agrees, fun key => ?_, fun key value => ?_⟩
  · exact ⟨OrderedMap.get?_eq_lookup _ key, by
      rw [OrderedMap.contains_eq_isSome_get?, OrderedMap.get?_eq_lookup]⟩
  · have hrun : (ops.mapM Entries.perform).run [] = _ := hlist
    rw [run_mapM_append, hrun, Entries.run_erase_insert hdistinct]

end IndexedMap

end VoxelSchematic
