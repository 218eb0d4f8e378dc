import Std.Data.TreeMap

/-!
# Tables of names and numbers

A table pairs names with numbers; no name and no number belongs to two pairs.

* `IdTable.claim` adds a pair and refuses a number that another name holds.
* `IdTable.assign` adds a pair and drops the pair of whoever holds the number.
* Both first drop the older pair of the name, so a name can move.
-/

namespace VoxelSchematic

/-- What a number identifies. -/
inductive IdKind where
  | block
  | item
deriving Repr, DecidableEq

/-- The word for the kind in messages. -/
def IdKind.name : IdKind → String
  | .block => "block"
  | .item => "item"

/-- Pairs of names and numbers, to be looked up from both sides. -/
structure IdTable where
  idOf : Std.TreeMap String UInt16 := ∅
  nameOf : Std.TreeMap UInt16 String := ∅

namespace IdTable

def empty : IdTable := {}

instance : Inhabited IdTable := ⟨empty⟩

/-- The two sides of the table state the same pairs. -/
def Paired (t : IdTable) : Prop :=
  ∀ (name : String) (id : UInt16), t.idOf[name]? = some id ↔ t.nameOf[id]? = some name

def id? (t : IdTable) (name : String) : Option UInt16 := t.idOf[name]?

def name? (t : IdTable) (id : UInt16) : Option String := t.nameOf[id]?

def size (t : IdTable) : Nat := t.nameOf.size

def isEmpty (t : IdTable) : Bool := t.idOf.isEmpty

/-- The pairs, by ascending name. -/
def pairs (t : IdTable) : List (String × UInt16) := t.idOf.toList

def release (t : IdTable) (name : String) : IdTable :=
  match t.id? name with
  | some id => ⟨t.idOf.erase name, t.nameOf.erase id⟩
  | none => t

/-- States a pair on both sides. -/
def pair (t : IdTable) (name : String) (id : UInt16) : IdTable :=
  ⟨t.idOf.insert name id, t.nameOf.insert id name⟩

/-- Pairs a name with a number, unless another name holds it; that name is the error. -/
def claim (t : IdTable) (name : String) (id : UInt16) : Except String IdTable :=
  match t.name? id with
  | some holder => if holder = name then .ok ((t.release name).pair name id) else .error holder
  | none => .ok ((t.release name).pair name id)

/-- Pairs a name with a number. The name that held the number is displaced. -/
def assign (t : IdTable) (name : String) (id : UInt16) : Option String × IdTable :=
  let freed := t.release name
  match freed.name? id with
  | some holder => (some holder, (freed.release holder).pair name id)
  | none => (none, freed.pair name id)

def same (a b : IdTable) : Bool :=
  a.idOf.toList == b.idOf.toList && a.nameOf.toList == b.nameOf.toList

end IdTable

end VoxelSchematic
