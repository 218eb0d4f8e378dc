/-!
# Tag types

The thirteen types of the tag tree, each with the number that stands for it on the wire and
the name by which messages call it. `TagType.ofId?` inverts `TagType.id`.
-/

namespace VoxelSchematic

inductive TagType where
  /-- The marker that closes a compound. -/
  | terminator
  | byte
  | short
  | int
  | long
  | float
  | double
  | byteArray
  | string
  | list
  | compound
  | intArray
  | longArray
deriving Repr, DecidableEq, Inhabited

namespace TagType

/-- The number of a type on the wire. -/
def id : TagType → UInt8
  | .terminator => 0
  | .byte => 1
  | .short => 2
  | .int => 3
  | .long => 4
  | .float => 5
  | .double => 6
  | .byteArray => 7
  | .string => 8
  | .list => 9
  | .compound => 10
  | .intArray => 11
  | .longArray => 12

def ofId? : UInt8 → Option TagType
  | 0 => some .terminator
  | 1 => some .byte
  | 2 => some .short
  | 3 => some .int
  | 4 => some .long
  | 5 => some .float
  | 6 => some .double
  | 7 => some .byteArray
  | 8 => some .string
  | 9 => some .list
  | 10 => some .compound
  | 11 => some .intArray
  | 12 => some .longArray
  | _ => none

/-- The name of a type in messages. -/
def name : TagType → String
  | .terminator => "TAG_End"
  | .byte => "TAG_Byte"
  | .short => "TAG_Short"
  | .int => "TAG_Int"
  | .long => "TAG_Long"
  | .float => "TAG_Float"
  | .double => "TAG_Double"
  | .byteArray => "TAG_Byte_Array"
  | .string => "TAG_String"
  | .list => "TAG_List"
  | .compound => "TAG_Compound"
  | .intArray => "TAG_Int_Array"
  | .longArray => "TAG_Long_Array"

instance : ToString TagType := ⟨name⟩

theorem ofId?_id (t : TagType) : ofId? t.id = some t := by cases t <;> rfl

theorem id_of_ofId? {n : UInt8} {t : TagType} (h : ofId? n = some t) : t.id = n := by
  unfold ofId? at h
  split at h <;> simp_all [id] <;> subst h <;> rfl

end TagType

end VoxelSchematic
