import VoxelSchematic.Schematic.RemapTable

/-!
# Block and item numbers inside trees

Where the tree of a tile entity holds numbers that depend on the registry.

* An item record is known by a numeric `id` beside `Count` and `Damage`, by a numeric `Item`
  beside `Count` and `Meta`, or by an int `id` alone, in this order. Inside one, only the
  compounds `tag` and `d` are searched.
* A door keeps its materials in four int fields and its block in a fifth.
* Everything else is searched through its compounds and the compounds of its lists.

`Compound.rewriteIds` passes each number to a visitor and puts the answer in its place.
`Compound.convertIds` translates, and `Compound.recordIds` collects names.
-/

namespace VoxelSchematic

namespace IdField

/-- The tile entity that keeps numbers in fields of its own. -/
def doorId : String := "customDoorTileEntity"

def doorItems : List String := ["bottomMaterial", "topMaterial", "frame", "item"]

def doorBlock : String := "block"

def isNumeric : Option Tag → Bool
  | some (.short _) => true
  | some (.int _) => true
  | _ => false

/-- The field with the number of an item record; `none` for a tree that is none. -/
def itemKey? (tree : Compound) : Option String :=
  let counted := tree.contains "Count"
  if isNumeric (tree.get? "id") && counted && tree.contains "Damage" then some "id"
  else if isNumeric (tree.get? "Item") && counted && tree.contains "Meta" then some "Item"
  else if (tree.getInt? "id").isSome then some "id"
  else none

def isDoor (tree : Compound) : Bool := tree.getString? "id" == some doorId

/-- The kind of number that an int field of a tree holds. -/
def doorField? (isDoor : Bool) (key : String) : Option IdKind :=
  if !isDoor then none
  else if doorItems.contains key then some .item
  else if key == doorBlock then some .block
  else none

def lowBits (v : Int32) : UInt16 := v.toUInt32.toUInt16

def withLowBits (v : Int32) (id : UInt16) : Int32 :=
  ((v.toUInt32 &&& 0xFFFF0000) ||| id.toUInt32).toInt32

variable {m : Type → Type} [Monad m]

/-- Asks the visitor about the number in a field. -/
def visit (visitor : IdKind → UInt16 → m UInt16) (kind : IdKind) : Tag → m Tag
  | .short v => do return .short (← visitor kind v.toUInt16).toInt16
  | .int v => do return .int (withLowBits v (← visitor kind (lowBits v)))
  | tag => return tag

/-- Puts a compound into a field, where there is one to put. -/
def insertNested (fields : Compound) (key : String) : Option Compound → Compound
  | some inner => fields.insert key (.compound inner)
  | none => fields

mutual

def rewriteTree (visitor : IdKind → UInt16 → m UInt16) : Compound → m Compound
  | ⟨entries⟩ => do
      match itemKey? ⟨entries⟩ with
      | some key =>
          let id ← visit visitor .item (((⟨entries⟩ : Compound).get? key).getD .terminator)
          let tag ← rewriteNested visitor "tag" entries
          let d ← rewriteNested visitor "d" entries
          return insertNested (insertNested ((⟨entries⟩ : Compound).insert key id) "tag" tag) "d" d
      | none => return ⟨← rewriteFields visitor (isDoor ⟨entries⟩) entries⟩

/-- The rewritten compound under a key of an item record. -/
def rewriteNested (visitor : IdKind → UInt16 → m UInt16) (key : String) :
    List (String × Tag) → m (Option Compound)
  | [] => return none
  | (name, tag) :: rest =>
      if name == key then
        match tag with
        | .compound inner => some <$> rewriteTree visitor inner
        | _ => return none
      else rewriteNested visitor key rest

/-- The rewritten fields of a tree that is no item record. -/
def rewriteFields (visitor : IdKind → UInt16 → m UInt16) (isDoor : Bool) :
    List (String × Tag) → m (List (String × Tag))
  | [] => return []
  | (key, tag) :: rest => do
      let tag ← rewriteValue visitor (doorField? isDoor key) tag
      let rest ← rewriteFields visitor isDoor rest
      return (key, tag) :: rest

/-- A rewritten value; an int holds a number only where its field says so. -/
def rewriteValue (visitor : IdKind → UInt16 → m UInt16) (held : Option IdKind) : Tag → m Tag
  | .int v =>
      match held with
      | some kind => visit visitor kind (.int v)
      | none => return .int v
  | .compound inner => .compound <$> rewriteTree visitor inner
  | .list ⟨element, items⟩ => do return .list ⟨element, ← rewriteItems visitor items⟩
  | tag => return tag

def rewriteItems (visitor : IdKind → UInt16 → m UInt16) : List Tag → m (List Tag)
  | [] => return []
  | .compound inner :: rest => do
      let inner ← rewriteTree visitor inner
      let rest ← rewriteItems visitor rest
      return .compound inner :: rest
  | tag :: rest => do
      let rest ← rewriteItems visitor rest
      return tag :: rest

end

end IdField

namespace Conversion

def translate (c : Conversion) : IdKind → UInt16 → UInt16
  | .block, id => c.block id
  | .item, id => c.item id

end Conversion

namespace Compound

/-- A tree with every number in it replaced by the answer of the visitor. -/
def rewriteIds {m : Type → Type} [Monad m] (visitor : IdKind → UInt16 → m UInt16)
    (tree : Compound) : m Compound :=
  IdField.rewriteTree visitor tree

def convertIds (tree : Compound) (c : Conversion) : Compound :=
  Id.run (tree.rewriteIds fun kind id => pure (c.translate kind id))

def unnamedItem (id : UInt16) : String :=
  s!"Item {id.toNat} has no registry name, leaving it out of the mapping"

def recordName {ε : Type} (registry : Registry) (kind : IdKind) (id : UInt16)
    (table : RemapTable) : Telling ε RemapTable := do
  match kind with
  | .block =>
      let (_, table) ← table.recordBlock registry id
      return table
  | .item =>
      let (named, table) ← table.recordItem registry id
      if !named then Telling.log .debug (unnamedItem id)
      return table

/-- Records the name of one number, and leaves the number as it is. -/
def recordId {ε : Type} (registry : Registry) (kind : IdKind) (id : UInt16) :
    StateT RemapTable (Telling ε) UInt16 := fun table => do
  return (id, ← recordName registry kind id table)

def recordIds {ε : Type} (tree : Compound) (registry : Registry) (table : RemapTable) :
    Telling ε RemapTable := do
  let (_, table) ← (tree.rewriteIds (recordId registry)).run table
  return table

end Compound

end VoxelSchematic
