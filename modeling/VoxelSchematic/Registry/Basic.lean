import VoxelSchematic.Registry.IdTable

/-!
# Registries

A registry knows the names and numbers of blocks and items. No number is claimed by two names
of one kind; `RegistryError.duplicateId` names both where that is tried.
-/

namespace VoxelSchematic

inductive RegistryError where
  /-- The medium failed. -/
  | io (reason : String)
  /-- The document is not a registry. -/
  | json (reason : String)
  | duplicateId (kind : IdKind) (id : UInt16) (first second : String)
deriving Repr, DecidableEq

namespace RegistryError

def message : RegistryError → String
  | .io reason => s!"IO error: {reason}"
  | .json reason => s!"invalid registry document: {reason}"
  | .duplicateId kind id first second =>
      s!"{kind.name} id {id.toNat} is claimed by both {first} and {second}"

end RegistryError

structure Registry where
  blocks : IdTable := {}
  items : IdTable := {}

namespace Registry

def empty : Registry := {}

instance : Inhabited Registry := ⟨empty⟩

def blockId? (r : Registry) (name : String) : Option UInt16 := r.blocks.id? name

def blockName? (r : Registry) (id : UInt16) : Option String := r.blocks.name? id

def itemId? (r : Registry) (name : String) : Option UInt16 := r.items.id? name

def itemName? (r : Registry) (id : UInt16) : Option String := r.items.name? id

def claim (kind : IdKind) (t : IdTable) (name : String) (id : UInt16) :
    Except RegistryError IdTable :=
  (t.claim name id).mapError fun holder => .duplicateId kind id holder name

/-- Adds a block; a name that is known already moves. -/
def withBlock (r : Registry) (name : String) (id : UInt16) : Except RegistryError Registry := do
  return { r with blocks := ← claim .block r.blocks name id }

def withItem (r : Registry) (name : String) (id : UInt16) : Except RegistryError Registry := do
  return { r with items := ← claim .item r.items name id }

/-- The table of the given pairs, claimed one after the other. -/
def tableOf (kind : IdKind) (pairs : List (String × UInt16)) : Except RegistryError IdTable :=
  pairs.foldlM (fun t entry => claim kind t entry.1 entry.2) .empty

def same (a b : Registry) : Bool := a.blocks.same b.blocks && a.items.same b.items

end Registry

end VoxelSchematic
