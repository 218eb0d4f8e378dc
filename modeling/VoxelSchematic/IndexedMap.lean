import Std.Data.HashMap
import VoxelSchematic.OrderedMap

/-!
# Maps with an index of positions

A map from strings to values as a row of entries and a hash table that knows the position of each
key. What `OrderedMap` finds by searching its entries is looked up here.

* `IndexedMap.insert` replaces at the known position, or appends and enters a new position.
* `IndexedMap.erase` closes the gap and lowers the positions of all later keys, one by one.
* An operation is `none` where it would have to read outside the entries or to lower the position
  zero.
-/

namespace VoxelSchematic

/-- Entries in the order in which their keys first arrived, with the position of each key. -/
structure IndexedMap (α : Type) where
  entries : Array (String × α) := #[]
  index : Std.HashMap String Nat := ∅

namespace IndexedMap

variable {α : Type}

def empty : IndexedMap α := {}

instance : Inhabited (IndexedMap α) := ⟨empty⟩

def toOrdered (m : IndexedMap α) : OrderedMap α := ⟨m.entries.toList⟩

def size (m : IndexedMap α) : Nat := m.entries.size

def isEmpty (m : IndexedMap α) : Bool := m.entries.isEmpty

def keys (m : IndexedMap α) : List String := m.entries.toList.map Prod.fst

def values (m : IndexedMap α) : List α := m.entries.toList.map Prod.snd

def contains (m : IndexedMap α) (key : String) : Bool := m.index.contains key

def get? (m : IndexedMap α) (key : String) : Option (Option α) :=
  match m.index[key]? with
  | some slot => do
      let entry ← m.entries[slot]?
      return some entry.2
  | none => some none

/-- Puts another value where a key has one; the answer is the value that it had. -/
def replace (m : IndexedMap α) (key : String) (value : α) : Option (Option α × IndexedMap α) :=
  match m.index[key]? with
  | some slot => do
      let old ← m.entries[slot]?
      return (some old.2, { m with entries := m.entries.setIfInBounds slot (old.1, value) })
  | none => some (none, m)

/-- Replaces the value of a key, or appends an entry; the answer is the value that was there. -/
def insert (m : IndexedMap α) (key : String) (value : α) : Option (Option α × IndexedMap α) :=
  match m.index[key]? with
  | some slot => do
      let old ← m.entries[slot]?
      return (some old.2, { m with entries := m.entries.setIfInBounds slot (old.1, value) })
  | none =>
      some (none, ⟨m.entries.push (key, value), m.index.insert key m.entries.size⟩)

def lower (index : Std.HashMap String Nat) (key : String) : Option (Std.HashMap String Nat) :=
  match index[key]? with
  | some 0 => none
  | some (position + 1) => some (index.insert key position)
  | none => some index

/-- Removes the entry of a key; the answer is its value. -/
def erase (m : IndexedMap α) (key : String) : Option (Option α × IndexedMap α) :=
  match m.index[key]? with
  | some slot => do
      let removed ← m.entries[slot]?
      let entries := m.entries.eraseIdxIfInBounds slot
      let later := entries.toList.drop slot
      let index ← later.foldlM (fun index entry => lower index entry.1) (m.index.erase key)
      return (some removed.2, ⟨entries, index⟩)
  | none => some (none, m)

def extend (m : IndexedMap α) (pairs : List (String × α)) : Option (IndexedMap α) :=
  pairs.foldlM (fun m pair => Prod.snd <$> m.insert pair.1 pair.2) m

/-- The map that holds the last value of each key, in the order of first arrival. -/
def collect (pairs : List (String × α)) : Option (IndexedMap α) := empty.extend pairs

end IndexedMap

end VoxelSchematic
