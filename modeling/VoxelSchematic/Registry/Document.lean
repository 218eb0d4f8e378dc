import VoxelSchematic.Json.Reader
import VoxelSchematic.Json.Writer
import VoxelSchematic.Registry.Basic

/-!
# Registry documents

A registry is written as an object with the two fields `blocks` and `items`, each an object
that gives the number of each name.

* `Registry.ofDocument` reads one. Either table may be missing; where a table repeats a name,
  the last number counts; other fields are passed over.
* `Registry.toDocument` writes one, each table by ascending name.
-/

namespace VoxelSchematic.Registry

/-- What a document says before numbers are checked against each other. -/
abbrev NameTable := Std.TreeMap String UInt16

/-- The number of a name, which has sixteen bits. -/
def idOf? (v : Json.Value) : Option UInt16 := do
  return UInt16.ofNat (← v.integerIn? 0 65535).toNat

def nameTable? : Option Json.Value → Option NameTable
  | none => some ∅
  | some (.object members) => do
      let named ← Json.Value.namedMembers? members
      named.foldlM (fun table member => do return table.insert member.1 (← idOf? member.2)) ∅
  | some _ => none

def tables? (bytes : List UInt8) : Option (NameTable × NameTable) := do
  match ← (← Json.read? bytes).fields? ["blocks", "items"] with
  | [blocks, items] => return (← nameTable? blocks, ← nameTable? items)
  | _ => none

def ofDocument (bytes : List UInt8) : Except RegistryError Registry :=
  match tables? bytes with
  | none => .error (.json "not a table of names")
  | some (blocks, items) => do
      return ⟨← tableOf .block blocks.toList, ← tableOf .item items.toList⟩

def ofText (text : String) : Except RegistryError Registry := ofDocument text.toUTF8.data.toList

def tableText (t : IdTable) : List Char :=
  Json.indentedObject 1 (t.pairs.map fun entry => (entry.1, Json.integer entry.2.toNat))

def toDocument (r : Registry) : String :=
  String.ofList (Json.indentedObject 0
    [("blocks", tableText r.blocks), ("items", tableText r.items)])

end VoxelSchematic.Registry
