/-!
# Insertion-ordered maps

A map from strings to values that remembers the order in which its keys arrived.

* `OrderedMap.slot?` is the position of a key; `get?` reads through it.
* `insert` writes to the slot a key already has, or opens a new one at the end.
* `erase` closes a slot and moves the later ones up, so a key that comes back comes last.
* `OrderedMap.Distinct` says that no key has two slots; every operation but `append` keeps it.
-/

namespace VoxelSchematic

/-- Entries in the order in which their keys first arrived. -/
structure OrderedMap (α : Type) where
  entries : List (String × α) := []
deriving Repr, DecidableEq

namespace OrderedMap

variable {α β : Type}

def empty : OrderedMap α := ⟨[]⟩

instance : Inhabited (OrderedMap α) := ⟨empty⟩

def size (m : OrderedMap α) : Nat := m.entries.length

def isEmpty (m : OrderedMap α) : Bool := m.entries.isEmpty

def keys (m : OrderedMap α) : List String := m.entries.map Prod.fst

def values (m : OrderedMap α) : List α := m.entries.map Prod.snd

def slot? (m : OrderedMap α) (key : String) : Option Nat :=
  m.entries.findIdx? (·.1 == key)

def contains (m : OrderedMap α) (key : String) : Bool := (m.slot? key).isSome

def get? (m : OrderedMap α) (key : String) : Option α := do
  let i ← m.slot? key
  let entry ← m.entries[i]?
  return entry.2

/-- Applies `f` to the value of a key; a map without the key stays as it is. -/
def modify (m : OrderedMap α) (key : String) (f : α → α) : OrderedMap α :=
  match m.slot? key with
  | some i => ⟨m.entries.modify i fun entry => (entry.1, f entry.2)⟩
  | none => m

/-- Replaces the value in the key's slot, or appends a new entry. -/
def insert (m : OrderedMap α) (key : String) (value : α) : OrderedMap α :=
  match m.slot? key with
  | some i => ⟨m.entries.set i (key, value)⟩
  | none => ⟨m.entries ++ [(key, value)]⟩

/-- Opens a new slot at the end even for a key that has one, so keys may stop being distinct. -/
def append (m : OrderedMap α) (key : String) (value : α) : OrderedMap α :=
  ⟨m.entries ++ [(key, value)]⟩

/-- Removes the key's entry; the others keep their order. -/
def erase (m : OrderedMap α) (key : String) : OrderedMap α :=
  match m.slot? key with
  | some i => ⟨m.entries.eraseIdx i⟩
  | none => m

/-- The value that `insert` displaces, with the map it leaves. -/
def getThenInsert? (m : OrderedMap α) (key : String) (value : α) : Option α × OrderedMap α :=
  (m.get? key, m.insert key value)

/-- The value that `erase` removes, with the map it leaves. -/
def getThenErase? (m : OrderedMap α) (key : String) : Option α × OrderedMap α :=
  (m.get? key, m.erase key)

def insertMany (m : OrderedMap α) (pairs : List (String × α)) : OrderedMap α :=
  pairs.foldl (fun m pair => m.insert pair.1 pair.2) m

/-- The map that holds the last value of each key, in the order of first arrival. -/
def ofList (pairs : List (String × α)) : OrderedMap α := empty.insertMany pairs

/-- No key has two slots. -/
def Distinct (m : OrderedMap α) : Prop := m.keys.Nodup

theorem distinct_empty : (empty : OrderedMap α).Distinct := List.nodup_nil

/-! ## Keys -/

section

variable {m : OrderedMap α} {key : String}

theorem slot?_eq_none_iff : m.slot? key = none ↔ key ∉ m.keys := by
  simp only [slot?, keys, List.findIdx?_eq_none_iff, List.mem_map, Bool.eq_false_iff, ne_eq,
    beq_iff_eq]
  exact ⟨fun h ⟨entry, here, name⟩ => h entry here name,
    fun h entry here name => h ⟨entry, here, name⟩⟩

/-- A slot is the position of its key among the keys. -/
theorem getElem?_keys_of_slot? {i : Nat} (h : m.slot? key = some i) : m.keys[i]? = some key := by
  obtain ⟨bound, name, -⟩ := List.findIdx?_eq_some_iff_getElem.1 h
  simp [keys, List.getElem?_eq_getElem bound, eq_of_beq name]

theorem keys_insert_of_not_mem (value : α) (h : key ∉ m.keys) :
    (m.insert key value).keys = m.keys ++ [key] := by
  simp [insert, slot?_eq_none_iff.2 h, keys]

/-- A key that has a slot keeps it, so all keys stay in place. -/
theorem keys_insert_of_mem (value : α) (h : key ∈ m.keys) : (m.insert key value).keys = m.keys := by
  cases slot : m.slot? key with
  | none => exact absurd h (slot?_eq_none_iff.1 slot)
  | some i =>
      obtain ⟨bound, here⟩ := List.getElem?_eq_some_iff.1 (getElem?_keys_of_slot? slot)
      simp only [insert, slot, keys, List.map_set]
      subst here
      exact List.set_getElem_self bound

theorem Distinct.insert (h : m.Distinct) (key : String) (value : α) :
    (m.insert key value).Distinct := by
  unfold Distinct
  by_cases here : key ∈ m.keys
  · rw [keys_insert_of_mem value here]
    exact h
  · rw [keys_insert_of_not_mem value here, List.nodup_append]
    refine ⟨h, List.nodup_cons.2 ⟨List.not_mem_nil, List.nodup_nil⟩, ?_⟩
    intro other there last added same
    rw [same, List.mem_singleton.1 added] at there
    exact here there

theorem Distinct.erase (h : m.Distinct) (key : String) : (m.erase key).Distinct := by
  unfold OrderedMap.erase
  split
  · exact h.sublist ((List.eraseIdx_sublist m.entries _).map Prod.fst)
  · exact h

theorem Distinct.insertMany (h : m.Distinct) (pairs : List (String × α)) :
    (m.insertMany pairs).Distinct := by
  induction pairs generalizing m with
  | nil => exact h
  | cons pair rest ih => exact ih (h.insert pair.1 pair.2)

theorem distinct_ofList (pairs : List (String × α)) : (ofList pairs).Distinct :=
  distinct_empty.insertMany pairs

end

end OrderedMap

end VoxelSchematic
