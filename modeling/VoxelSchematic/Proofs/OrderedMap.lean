import Mathlib
import VoxelSchematic.OrderedMap

/-!
# Laws of ordered maps

* `slot?_cons` and its neighbours open an operation at the first entry, so that all further laws
  go by induction on the entries.
* `get?_insert` and `get?_erase_of_ne` say what an operation does to look-ups, and
  `erase_insert_self` and `erase_insert_of_ne` how the operations commute.
* `keys_ofList` and `get?_ofList` describe the map that a list of pairs leaves: the keys in the
  order of first arrival, each with its last value.
* `total_ofList_lt` weighs a list of pairs against the map it leaves.
-/

namespace VoxelSchematic.OrderedMap

variable {α : Type} {m : OrderedMap α} {key other : String} {value : α}
  {pairs : List (String × α)}

/-! ## The first entry -/

theorem slot?_cons (entry : String × α) (rest : List (String × α)) :
    (⟨entry :: rest⟩ : OrderedMap α).slot? key =
      if entry.1 = key then some 0 else ((⟨rest⟩ : OrderedMap α).slot? key).map (· + 1) := by
  simp [slot?, List.findIdx?_cons]

theorem insert_cons (entry : String × α) (rest : List (String × α)) (key : String) (value : α) :
    (⟨entry :: rest⟩ : OrderedMap α).insert key value =
      if entry.1 = key then ⟨(key, value) :: rest⟩
      else ⟨entry :: ((⟨rest⟩ : OrderedMap α).insert key value).entries⟩ := by
  unfold insert
  rw [slot?_cons]
  by_cases h : entry.1 = key
  · simp [h]
  · cases hslot : (⟨rest⟩ : OrderedMap α).slot? key with
    | none => simp [h]
    | some i => simp [h]

theorem erase_cons (entry : String × α) (rest : List (String × α)) (key : String) :
    (⟨entry :: rest⟩ : OrderedMap α).erase key =
      if entry.1 = key then ⟨rest⟩ else ⟨entry :: ((⟨rest⟩ : OrderedMap α).erase key).entries⟩ := by
  unfold erase
  rw [slot?_cons]
  by_cases h : entry.1 = key
  · simp [h]
  · cases hslot : (⟨rest⟩ : OrderedMap α).slot? key with
    | none => simp [h]
    | some i => simp [h]

theorem get?_cons (entry : String × α) (rest : List (String × α)) (key : String) :
    (⟨entry :: rest⟩ : OrderedMap α).get? key =
      if entry.1 = key then some entry.2 else (⟨rest⟩ : OrderedMap α).get? key := by
  unfold get?
  rw [slot?_cons]
  by_cases h : entry.1 = key
  · simp [h]
  · cases hslot : (⟨rest⟩ : OrderedMap α).slot? key with
    | none => simp [h]
    | some i => simp [h]

/-! ## Look-ups -/

theorem get?_eq_none_iff : m.get? key = none ↔ key ∉ m.keys := by
  rcases m with ⟨entries⟩
  induction entries with
  | nil => simp [get?, slot?, keys]
  | cons entry rest ih =>
      rw [get?_cons]
      by_cases h : entry.1 = key
      · simp [h, keys]
      · simpa [h, keys, Ne.symm h] using ih

/-- A slot is found by the keys alone. -/
theorem slot?_eq_findIdx? (m : OrderedMap α) (key : String) :
    m.slot? key = m.keys.findIdx? (· == key) := by
  rw [slot?, keys, List.findIdx?_map]
  rfl

/-- What a look-up finds stands in the slot of its key. -/
theorem slot?_of_get? (h : m.get? key = some value) :
    ∃ i, m.slot? key = some i ∧ m.entries[i]? = some (key, value) := by
  rcases Option.bind_eq_some_iff.1 h with ⟨i, hslot, hvalue⟩
  rcases Option.bind_eq_some_iff.1 hvalue with ⟨entry, hentry, hsame⟩
  have hname : m.keys[i]? = some entry.1 := by
    rw [keys, List.getElem?_map, hentry]
    rfl
  have hkey : entry.1 = key :=
    Option.some.inj (hname.symm.trans (getElem?_keys_of_slot? hslot))
  refine ⟨i, hslot, hentry.trans ?_⟩
  exact congrArg some (Prod.ext hkey (Option.some.inj hsame))

/-- A slot has one key. -/
theorem slot?_ne_of_ne {i : Nat} (hslot : m.slot? key = some i) (hne : key ≠ other) :
    m.slot? other ≠ some i := by
  intro hother
  have hkeys := (getElem?_keys_of_slot? hslot).symm.trans (getElem?_keys_of_slot? hother)
  exact hne (Option.some.inj hkeys)

theorem contains_eq_isSome_get? : m.contains key = (m.get? key).isSome := by
  rcases m with ⟨entries⟩
  induction entries with
  | nil => rfl
  | cons entry rest ih =>
      unfold contains at ih ⊢
      rw [slot?_cons, get?_cons]
      by_cases h : entry.1 = key
      · simp [h]
      · simpa [h] using ih

theorem get?_insert :
    (m.insert key value).get? other = if key = other then some value else m.get? other := by
  rcases m with ⟨entries⟩
  induction entries with
  | nil =>
      have hnil : (⟨[]⟩ : OrderedMap α).insert key value = ⟨[(key, value)]⟩ := rfl
      rw [hnil, get?_cons]
  | cons entry rest ih =>
      rw [insert_cons]
      -- The slot of the key is the first one, or the insertion goes on behind it.
      by_cases h : entry.1 = key
      · rw [if_pos h, get?_cons, get?_cons, h]
        by_cases ho : key = other
        · simp [ho]
        · simp [ho]
      · rw [if_neg h, get?_cons, get?_cons, ih]
        by_cases ho : entry.1 = other
        · have hne : key ≠ other := fun hk => h (ho.trans hk.symm)
          simp [ho, hne]
        · simp [ho]

/-- An insertion moves no other key. -/
theorem slot?_insert_of_ne (h : key ≠ other) : (m.insert key value).slot? other = m.slot? other := by
  rcases m with ⟨entries⟩
  induction entries with
  | nil =>
      have hnil : (⟨[]⟩ : OrderedMap α).insert key value = ⟨[(key, value)]⟩ := rfl
      rw [hnil, slot?_cons, if_neg h]
      rfl
  | cons entry rest ih =>
      rw [insert_cons, slot?_cons]
      by_cases hk : entry.1 = key
      · have hne : entry.1 ≠ other := fun ho => h (hk.symm.trans ho)
        rw [if_pos hk, slot?_cons, if_neg h, if_neg hne]
      · rw [if_neg hk, slot?_cons, ih]

theorem get?_erase_of_ne (h : key ≠ other) : (m.erase key).get? other = m.get? other := by
  rcases m with ⟨entries⟩
  induction entries with
  | nil => rfl
  | cons entry rest ih =>
      rw [erase_cons, get?_cons]
      by_cases hk : entry.1 = key
      · have hne : entry.1 ≠ other := fun ho => h (hk.symm.trans ho)
        rw [if_pos hk, if_neg hne]
      · rw [if_neg hk, get?_cons, ih]

theorem get?_erase_self (h : m.Distinct) : (m.erase key).get? key = none := by
  rcases m with ⟨entries⟩
  induction entries with
  | nil => rfl
  | cons entry rest ih =>
      rcases List.nodup_cons.1 h with ⟨hnew, hrest⟩
      rw [erase_cons]
      by_cases hk : entry.1 = key
      · rw [if_pos hk]
        exact get?_eq_none_iff.2 (hk ▸ hnew)
      · rw [if_neg hk, get?_cons, if_neg hk]
        exact ih hrest

theorem get?_of_mem {entry : String × α} (h : m.Distinct) (hentry : entry ∈ m.entries) :
    m.get? entry.1 = some entry.2 := by
  rcases m with ⟨entries⟩
  induction entries with
  | nil => cases hentry
  | cons first rest ih =>
      rcases List.nodup_cons.1 h with ⟨hnew, hrest⟩
      rw [get?_cons]
      rcases List.mem_cons.1 hentry with rfl | hbehind
      · simp
      · have hne : first.1 ≠ entry.1 := fun hsame => hnew (hsame ▸ List.mem_map_of_mem hbehind)
        rw [if_neg hne]
        exact ih hrest hbehind

theorem mem_of_get? (h : m.get? key = some value) : (key, value) ∈ m.entries := by
  rcases m with ⟨entries⟩
  induction entries with
  | nil => cases h
  | cons entry rest ih =>
      rw [get?_cons] at h
      by_cases hk : entry.1 = key
      · rw [if_pos hk] at h
        have hentry : entry = (key, value) := Prod.ext hk (Option.some.inj h)
        exact hentry ▸ List.mem_cons_self
      · rw [if_neg hk] at h
        exact List.mem_cons_of_mem entry (ih h)

/-- A value goes back to its place. -/
theorem insert_of_get? (h : m.get? key = some value) : m.insert key value = m := by
  rcases m with ⟨entries⟩
  induction entries with
  | nil => cases h
  | cons entry rest ih =>
      rw [get?_cons] at h
      rw [insert_cons]
      by_cases hk : entry.1 = key
      · rw [if_pos hk] at h ⊢
        rw [← hk, ← Option.some.inj h]
      · rw [if_neg hk] at h ⊢
        rw [ih h]

theorem get?_mapValues (g : String → α → α) (m : OrderedMap α) (key : String) :
    (⟨m.entries.map fun entry => (entry.1, g entry.1 entry.2)⟩ : OrderedMap α).get? key =
      (m.get? key).map (g key) := by
  rcases m with ⟨entries⟩
  induction entries with
  | nil => rfl
  | cons entry rest ih =>
      rw [List.map_cons, get?_cons, get?_cons, ih]
      by_cases h : entry.1 = key
      · simp [h]
      · simp [h]

/-! ## Operations in another order -/

theorem erase_of_not_mem (h : key ∉ m.keys) : m.erase key = m := by
  simp [erase, slot?_eq_none_iff.2 h]

theorem erase_insert_self : (m.insert key value).erase key = m.erase key := by
  rcases m with ⟨entries⟩
  induction entries with
  | nil =>
      have hnil : (⟨[]⟩ : OrderedMap α).insert key value = ⟨[(key, value)]⟩ := rfl
      rw [hnil, erase_cons, if_pos rfl]
      rfl
  | cons entry rest ih =>
      rw [insert_cons, erase_cons]
      by_cases h : entry.1 = key
      · rw [if_pos h, if_pos h, erase_cons, if_pos rfl]
      · rw [if_neg h, if_neg h, erase_cons, if_neg h, ih]

theorem erase_insert_of_ne (h : key ≠ other) :
    (m.insert key value).erase other = (m.erase other).insert key value := by
  rcases m with ⟨entries⟩
  induction entries with
  | nil =>
      have hnil : (⟨[]⟩ : OrderedMap α).insert key value = ⟨[(key, value)]⟩ := rfl
      rw [hnil, erase_cons, if_neg h]
      rfl
  | cons entry rest ih =>
      rw [insert_cons, erase_cons]
      by_cases hk : entry.1 = key
      · have hne : entry.1 ≠ other := fun ho => h (hk.symm.trans ho)
        rw [if_pos hk, if_neg hne, insert_cons, if_pos hk, erase_cons, if_neg h]
      · by_cases ho : entry.1 = other
        · rw [if_neg hk, if_pos ho, erase_cons, if_pos ho]
        · rw [if_neg hk, if_neg ho, erase_cons, if_neg ho, insert_cons, if_neg hk, ih]

theorem insert_insert_self {old : α} : (m.insert key old).insert key value = m.insert key value := by
  rcases m with ⟨entries⟩
  induction entries with
  | nil =>
      have hnil : (⟨[]⟩ : OrderedMap α).insert key old = ⟨[(key, old)]⟩ := rfl
      rw [hnil, insert_cons, if_pos rfl]
      rfl
  | cons entry rest ih =>
      rw [insert_cons, insert_cons]
      by_cases h : entry.1 = key
      · rw [if_pos h, if_pos h, insert_cons, if_pos rfl]
      · rw [if_neg h, if_neg h, insert_cons, if_neg h, ih]

/-- A key that has its slot already gets its value before or after another key. -/
theorem insert_insert_comm {value' : α} (h : key ≠ other) (hkey : key ∈ m.keys) :
    (m.insert other value').insert key value = (m.insert key value).insert other value' := by
  rcases m with ⟨entries⟩
  induction entries with
  | nil => cases hkey
  | cons entry rest ih =>
      rw [insert_cons, insert_cons]
      by_cases hk : entry.1 = key
      · have hne : entry.1 ≠ other := fun ho => h (hk.symm.trans ho)
        rw [if_pos hk, if_neg hne, insert_cons, if_pos hk, insert_cons, if_neg h]
      · have hrest : key ∈ (⟨rest⟩ : OrderedMap α).keys :=
          (List.mem_cons.1 hkey).resolve_left fun hkey => hk hkey.symm
        by_cases ho : entry.1 = other
        · rw [if_neg hk, if_pos ho, insert_cons, if_neg (Ne.symm h), insert_cons, if_pos ho]
        · rw [if_neg hk, if_neg ho, insert_cons, if_neg hk, insert_cons, if_neg ho, ih hrest]

theorem keys_modify (m : OrderedMap α) (key : String) (f : α → α) :
    (m.modify key f).keys = m.keys := by
  unfold modify
  cases m.slot? key with
  | none => rfl
  | some i =>
      have hname : Prod.fst ∘ (fun entry : String × α => (entry.1, f entry.2)) = Prod.fst := rfl
      apply List.ext_getElem? fun j => ?_
      simp only [keys, List.getElem?_map, List.getElem?_modify]
      by_cases hj : i = j
      · simp [hj, hname]
      · simp [hj]

theorem mem_entries_modify {entry : String × α} {f : α → α}
    (h : entry ∈ (m.modify key f).entries) :
    entry ∈ m.entries ∨ ∃ old ∈ m.entries, entry = (old.1, f old.2) := by
  unfold modify at h
  cases hslot : m.slot? key with
  | none => exact .inl (by simpa [hslot] using h)
  | some i =>
      simp only [hslot] at h
      -- The entry stands at some place; only the one at the slot has changed.
      rcases List.getElem?_of_mem h with ⟨j, hj⟩
      rw [List.getElem?_modify] at hj
      cases hold : m.entries[j]? with
      | none => simp [hold] at hj
      | some old =>
          have hmem := List.mem_of_getElem? hold
          by_cases hij : i = j
          · exact .inr ⟨old, hmem, by simpa [hold, hij, eq_comm] using hj⟩
          · have hsame : old = entry := by simpa [hold, hij] using hj
            exact .inl (hsame ▸ hmem)

theorem mem_of_mem_entries_erase {entry : String × α} (h : entry ∈ (m.erase key).entries) :
    entry ∈ m.entries := by
  unfold erase at h
  cases hslot : m.slot? key with
  | none => simpa [hslot] using h
  | some i => exact List.mem_of_mem_eraseIdx (by simpa [hslot] using h)

/-! ## The entries of other keys -/

section

variable {p : String → Bool}

theorem filter_insert (hp : p key = false) :
    (m.insert key value).entries.filter (fun entry => p entry.1) =
      m.entries.filter fun entry => p entry.1 := by
  rcases m with ⟨entries⟩
  induction entries with
  | nil =>
      have hnil : (⟨[]⟩ : OrderedMap α).insert key value = ⟨[(key, value)]⟩ := rfl
      simp [hnil, hp]
  | cons entry rest ih =>
      rw [insert_cons]
      by_cases hk : entry.1 = key
      · simp [hk, hp]
      · rw [if_neg hk, List.filter_cons, List.filter_cons, ih]

theorem filter_erase (hp : p key = false) :
    (m.erase key).entries.filter (fun entry => p entry.1) =
      m.entries.filter fun entry => p entry.1 := by
  rcases m with ⟨entries⟩
  induction entries with
  | nil => rfl
  | cons entry rest ih =>
      rw [erase_cons]
      by_cases hk : entry.1 = key
      · simp [hk, hp]
      · rw [if_neg hk, List.filter_cons, List.filter_cons, ih]

/-- Where no key has two slots, closing the slot of a key takes it away. -/
theorem entries_erase_eq_filter (h : m.Distinct) (key : String) :
    (m.erase key).entries = m.entries.filter fun entry => decide (entry.1 ≠ key) := by
  have hgone : key ∉ (m.erase key).keys := get?_eq_none_iff.1 (get?_erase_self h)
  have hfilter : (m.erase key).entries.filter (fun entry => decide (entry.1 ≠ key)) =
      m.entries.filter fun entry => decide (entry.1 ≠ key) :=
    filter_erase (p := fun other => decide (other ≠ key)) (decide_eq_false (not_not_intro rfl))
  rw [← hfilter]
  refine (List.filter_eq_self.2 fun entry hentry => decide_eq_true ?_).symm
  rintro rfl
  exact hgone (List.mem_map_of_mem hentry)

end

/-! ## Many pairs -/

theorem mem_entries_insert {entry : String × α} (h : entry ∈ (m.insert key value).entries) :
    entry ∈ m.entries ∨ entry = (key, value) := by
  unfold insert at h
  split at h
  · exact List.mem_or_eq_of_mem_set h
  · simpa using h

theorem mem_entries_insertMany {entry : String × α} (h : entry ∈ (m.insertMany pairs).entries) :
    entry ∈ m.entries ∨ entry ∈ pairs := by
  induction pairs generalizing m with
  | nil => exact .inl h
  | cons pair rest ih =>
      rcases ih (m := m.insert pair.1 pair.2) h with old | new
      · rcases mem_entries_insert old with old | rfl
        · exact .inl old
        · exact .inr List.mem_cons_self
      · exact .inr (List.mem_cons_of_mem pair new)

theorem mem_of_mem_ofList {entry : String × α} (h : entry ∈ (ofList pairs).entries) :
    entry ∈ pairs := by
  rcases mem_entries_insertMany h with old | new
  · cases old
  · exact new

theorem insert_of_not_mem (h : key ∉ m.keys) (value : α) :
    m.insert key value = ⟨m.entries ++ [(key, value)]⟩ := by
  simp [insert, slot?_eq_none_iff.2 h]

theorem insertMany_cons (m : OrderedMap α) (key : String) (value : α) (pairs : List (String × α)) :
    m.insertMany ((key, value) :: pairs) = (m.insert key value).insertMany pairs := rfl

theorem insertMany_of_nodup (h : (m.keys ++ pairs.map Prod.fst).Nodup) :
    m.insertMany pairs = ⟨m.entries ++ pairs⟩ := by
  induction pairs generalizing m with
  | nil => simp [insertMany]
  | cons pair rest ih =>
      have hnew : pair.1 ∉ m.keys := by
        intro here
        exact List.disjoint_of_nodup_append h here List.mem_cons_self
      -- A new key opens its slot behind all others.
      have hinsert := insert_of_not_mem hnew pair.2
      have hrest : ((m.insert pair.1 pair.2).keys ++ rest.map Prod.fst).Nodup := by
        rw [keys_insert_of_not_mem pair.2 hnew]
        simpa using h
      calc
        m.insertMany (pair :: rest) = (m.insert pair.1 pair.2).insertMany rest := rfl
        _ = ⟨(m.insert pair.1 pair.2).entries ++ rest⟩ := ih hrest
        _ = ⟨m.entries ++ pair :: rest⟩ := by rw [hinsert]; simp

/-- Pairs without a repeated key stay as they are. -/
theorem ofList_of_nodup (h : (pairs.map Prod.fst).Nodup) : ofList pairs = ⟨pairs⟩ :=
  insertMany_of_nodup (m := empty) (by simpa [empty, keys] using h)

theorem ofList_append_singleton :
    ofList (pairs ++ [(key, value)]) = (ofList pairs).insert key value := by
  simp [ofList, insertMany]

/-- The keys stand in the order in which they first came. -/
theorem keys_ofList (pairs : List (String × α)) :
    (ofList pairs).keys = (pairs.map Prod.fst).eraseDups := by
  -- From the right end, because the last pair is the one inserted last.
  induction pairs using List.reverseRecOn with
  | nil => rfl
  | append_singleton rest pair ih =>
      rcases pair with ⟨key, value⟩
      rw [ofList_append_singleton, List.map_append, List.eraseDups_append, ← ih]
      by_cases here : key ∈ rest.map Prod.fst
      · have hkeys : key ∈ (ofList rest).keys := by
          rw [ih]
          exact List.mem_eraseDups.2 here
        have hnone : [key].removeAll (rest.map Prod.fst) = [] := by
          simpa [List.removeAll] using here
        rw [keys_insert_of_mem value hkeys, List.map_singleton, hnone]
        simp
      · have hkeys : key ∉ (ofList rest).keys := by
          rw [ih]
          exact fun h => here (List.mem_eraseDups.1 h)
        have hsame : [key].removeAll (rest.map Prod.fst) = [key] := by
          simpa [List.removeAll] using here
        rw [keys_insert_of_not_mem value hkeys, List.map_singleton, hsame]
        rfl

/-- Each key has the value that came last. -/
theorem get?_ofList (pairs : List (String × α)) (key : String) :
    (ofList pairs).get? key = pairs.reverse.lookup key := by
  induction pairs using List.reverseRecOn with
  | nil => rfl
  | append_singleton rest pair ih =>
      rcases pair with ⟨name, value⟩
      rw [ofList_append_singleton, get?_insert, ih, List.reverse_append, List.reverse_singleton,
        List.singleton_append, List.lookup_cons]
      by_cases h : name = key
      · simp [h]
      · have hne : (key == name) = false := by simpa using Ne.symm h
        simp [h, hne]

/-! ## Sizes -/

section

variable {weight : String × α → Nat}

/-- The weights of all entries together. -/
def total (weight : String × α → Nat) (m : OrderedMap α) : Nat := (m.entries.map weight).sum

theorem total_insert_of_not_mem (value : α) (weight : String × α → Nat) (h : key ∉ m.keys) :
    (m.insert key value).total weight = m.total weight + weight (key, value) := by
  simp [insert_of_not_mem h, total]

/-- An entry that goes to a slot in use weighs in, and what stood there drops out. -/
theorem total_insert_lt_of_mem (value : α) (pos : ∀ entry, 0 < weight entry) (h : key ∈ m.keys) :
    (m.insert key value).total weight < m.total weight + weight (key, value) := by
  cases hslot : m.slot? key with
  | none => exact absurd h (slot?_eq_none_iff.1 hslot)
  | some i =>
      rcases List.findIdx?_eq_some_iff_getElem.1 hslot with ⟨hi, -, -⟩
      have hnew := List.sum_set (m.entries.map weight) i (weight (key, value))
      have hold := List.sum_set (m.entries.map weight) i (weight m.entries[i])
      have hself : (m.entries.map weight).set i (weight m.entries[i]) = m.entries.map weight := by
        rw [← List.map_set, List.set_getElem_self]
      have hweight := pos m.entries[i]
      rw [hself] at hold
      simp only [List.length_map, hi, if_true] at hnew hold
      simp only [insert, hslot, total, List.map_set]
      omega

theorem total_insert_le (m : OrderedMap α) (key : String) (value : α)
    (pos : ∀ entry, 0 < weight entry) :
    (m.insert key value).total weight ≤ m.total weight + weight (key, value) := by
  by_cases h : key ∈ m.keys
  · exact Nat.le_of_lt (total_insert_lt_of_mem value pos h)
  · exact Nat.le_of_eq (total_insert_of_not_mem value weight h)

theorem total_insertMany_le (m : OrderedMap α) (pairs : List (String × α))
    (pos : ∀ entry, 0 < weight entry) :
    (m.insertMany pairs).total weight ≤ m.total weight + (pairs.map weight).sum := by
  induction pairs generalizing m with
  | nil => simp [insertMany]
  | cons pair rest ih =>
      rcases pair with ⟨key, value⟩
      have hstep := total_insert_le m key value pos
      have hrest := ih (m.insert key value)
      rw [insertMany_cons, List.map_cons, List.sum_cons]
      omega

/-- Pairs of which two share a key, or one shares its key with the map, weigh more than what they
leave in it. -/
theorem total_insertMany_lt (pos : ∀ entry, 0 < weight entry) (hm : m.Distinct)
    (h : ¬(m.keys ++ pairs.map Prod.fst).Nodup) :
    (m.insertMany pairs).total weight < m.total weight + (pairs.map weight).sum := by
  induction pairs generalizing m with
  | nil => exact absurd hm (by simpa [Distinct] using h)
  | cons pair rest ih =>
      rcases pair with ⟨key, value⟩
      rw [insertMany_cons, List.map_cons, List.sum_cons]
      by_cases hkey : key ∈ m.keys
      · have hstep := total_insert_lt_of_mem value pos hkey
        have hrest := total_insertMany_le (m.insert key value) rest pos
        omega
      · have hstep := total_insert_of_not_mem value weight hkey
        have hrepeat : ¬((m.insert key value).keys ++ rest.map Prod.fst).Nodup := by
          rw [keys_insert_of_not_mem value hkey]
          simpa using h
        have hrest := ih (hm.insert key value) hrepeat
        omega

theorem total_ofList_lt (pos : ∀ entry, 0 < weight entry) (h : ¬(pairs.map Prod.fst).Nodup) :
    (ofList pairs).total weight < (pairs.map weight).sum := by
  have hrepeat : ¬((empty : OrderedMap α).keys ++ pairs.map Prod.fst).Nodup := h
  have hzero : (empty : OrderedMap α).total weight = 0 := rfl
  have hlt := total_insertMany_lt pos distinct_empty hrepeat
  rwa [hzero, Nat.zero_add] at hlt

end

end VoxelSchematic.OrderedMap
