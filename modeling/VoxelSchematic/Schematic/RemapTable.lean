import VoxelSchematic.Registry.Basic
import VoxelSchematic.Report
import VoxelSchematic.Schematic.Error
import VoxelSchematic.Schematic.Field
import VoxelSchematic.Tag.Basic

/-!
# Mapping sections

A schematic states the names under which its block and item numbers were known when it was
written. `RemapTable` holds these names, `Conversion` what they come to in another registry.

* `RemapTable.ofSections` reads the two sections; every entry must be a short. Where two names
  state one number, the later name keeps it and the log says so.
* `RemapTable.toSections` writes them, each by ascending name.
* `RemapTable.conversion` looks the names up in a registry. A name that the registry does not
  know is reported, and its number stays as it is.
-/

namespace VoxelSchematic

/-- The names of the block and item numbers of one schematic. -/
structure RemapTable where
  blocks : IdTable := {}
  items : IdTable := {}

structure Conversion where
  blocks : Std.TreeMap UInt16 UInt16 := ∅
  items : Std.TreeMap UInt16 UInt16 := ∅

namespace Conversion

/-- The new number of a block; without an entry, the old one. -/
def block (c : Conversion) (id : UInt16) : UInt16 := c.blocks.getD id id

def item (c : Conversion) (id : UInt16) : UInt16 := c.items.getD id id

def hasBlocks (c : Conversion) : Bool := !c.blocks.isEmpty

def hasItems (c : Conversion) : Bool := !c.items.isEmpty

end Conversion

namespace RemapTable

open Telling

variable {ε : Type}

def empty : RemapTable := {}

instance : Inhabited RemapTable := ⟨empty⟩

/-- What the log says where a number passes from one name to another. -/
def displacement (displaced name : String) (id : UInt16) : String :=
  s!"{displaced} and {name} both map to id {id.toNat}, keeping {name}"

/-- Pairs a name with a number, with notice of the name that loses it. -/
def assign (t : IdTable) (name : String) (id : UInt16) : Telling ε IdTable := do
  let (displaced, t) := t.assign name id
  if let some loser := displaced then log .warn (displacement loser name id)
  return t

/-- The entries of one section, put into a table one after the other. -/
def readEntries (section_ : String) : List (String × Tag) → IdTable → Telling FormatError IdTable
  | [], t => return t
  | (name, .short id) :: rest, t => do readEntries section_ rest (← assign t name id.toUInt16)
  | (name, tag) :: _, _ => throw (.wrongTagType (section_ ++ "." ++ name) .short tag.kind)

def readSection (section_ : String) (fields : Option Compound) : Telling FormatError IdTable :=
  match fields with
  | some fields => readEntries section_ fields.entries .empty
  | none => return .empty

/-- Reads the block section and then the item section. -/
def ofSections (blocks items : Option Compound) : Telling FormatError RemapTable := do
  let blocks ← readSection Schematic.Field.blockMapping blocks
  let items ← readSection Schematic.Field.itemMapping items
  return ⟨blocks, items⟩

def toSection (t : IdTable) : Compound :=
  .ofList (t.pairs.map fun entry => (entry.1, .short entry.2.toInt16))

def toSections (t : RemapTable) : Compound × Compound := (toSection t.blocks, toSection t.items)

/-- Records the name that a registry has for a block; without one, nothing is recorded. -/
def recordBlock (t : RemapTable) (registry : Registry) (id : UInt16) :
    Telling ε (Bool × RemapTable) :=
  match registry.blockName? id with
  | some name => do return (true, { t with blocks := ← assign t.blocks name id })
  | none => return (false, t)

def recordItem (t : RemapTable) (registry : Registry) (id : UInt16) :
    Telling ε (Bool × RemapTable) :=
  match registry.itemName? id with
  | some name => do return (true, { t with items := ← assign t.items name id })
  | none => return (false, t)

def unknownName (kind : IdKind) (name : String) (id : UInt16) : String :=
  s!"Unknown {kind.name} {name} in schematic mapping, keeping ID {id.toNat}"

def translate (kind : IdKind) (lookup : String → Option UInt16) :
    List (String × UInt16) → Std.TreeMap UInt16 UInt16 → Telling ε (Std.TreeMap UInt16 UInt16)
  | [], done => return done
  | (name, old) :: rest, done =>
      match lookup name with
      | some new => translate kind lookup rest (done.insert old new)
      | none => do
          warn (unknownName kind name old)
          translate kind lookup rest done

/-- What the recorded names come to in a registry, blocks first. -/
def conversion (t : RemapTable) (registry : Registry) : Telling ε Conversion := do
  let blocks ← translate .block registry.blockId? t.blocks.pairs ∅
  let items ← translate .item registry.itemId? t.items.pairs ∅
  return ⟨blocks, items⟩

end RemapTable

end VoxelSchematic
