import VoxelSchematic.Tag.Basic

/-!
# Equality of trees

`Tag.same` compares trees as values: compounds with the same fields are equal in any order,
floats compare as numbers, and lists must agree in their element type. A tree that holds a NaN
is therefore unequal to itself.
-/

namespace VoxelSchematic

open Ieee

mutual

def Tag.same : Tag → Tag → Bool
  | .terminator, .terminator => true
  | .byte a, .byte b => a == b
  | .short a, .short b => a == b
  | .int a, .int b => a == b
  | .long a, .long b => a == b
  | .float a, .float b => a.same b
  | .double a, .double b => a.same b
  | .byteArray a, .byteArray b => a == b
  | .string a, .string b => a == b
  | .list ⟨element, items⟩, .list other => element == other.element && sameItems items other.items
  | .compound ⟨entries⟩, .compound other =>
      entries.length == other.size && sameFields entries other
  | .intArray a, .intArray b => a == b
  | .longArray a, .longArray b => a == b
  | _, _ => false

def sameItems : List Tag → List Tag → Bool
  | [], [] => true
  | a :: as, b :: bs => a.same b && sameItems as bs
  | _, _ => false

/-- Each entry is equal to the field of its name in the other compound. -/
def sameFields : List (String × Tag) → Compound → Bool
  | [], _ => true
  | (key, a) :: rest, other =>
      (match other.get? key with
        | some b => a.same b
        | none => false) && sameFields rest other

end

def TagList.same (a b : TagList) : Bool := a.element == b.element && sameItems a.items b.items

/-- Equality of two compounds as values, in any order of their fields. -/
def Compound.same (a b : Compound) : Bool := a.size == b.size && sameFields a.entries b

end VoxelSchematic
