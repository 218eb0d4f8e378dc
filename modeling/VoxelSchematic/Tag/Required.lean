import VoxelSchematic.Tag.Basic
import VoxelSchematic.Text.Quoted

/-!
# Required fields

Reading a field that a compound must have, in the one type that is accepted.
-/

namespace VoxelSchematic

inductive FieldFault where
  | missing (key : String)
  | wrongType (key : String) (expected found : TagType)
deriving Repr, DecidableEq

def wrongTypeMessage (key : String) (expected found : TagType) : String :=
  s!"{Text.quoted key} tag is not of the expected type: "
    ++ s!"expected {expected.name}, found {found.name}"

/-- The field of a name, which must be there and of a type that `read` accepts. -/
def Compound.require {α : Type} (tree : Compound) (key : String) (expected : TagType)
    (read : Tag → Option α) : Except FieldFault α :=
  match tree.get? key with
  | none => .error (.missing key)
  | some tag =>
      match read tag with
      | some value => .ok value
      | none => .error (.wrongType key expected tag.kind)

end VoxelSchematic
