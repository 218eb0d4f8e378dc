import Mathlib
import VoxelSchematic.Tag.Required

/-!
# Fields of compounds

A field that must be there is found where the field is there and can be read.
-/

namespace VoxelSchematic.Compound

variable {α : Type} {tree : Compound} {key : String} {expected : TagType} {read : Tag → Option α}
  {value : α}

theorem getAs?_eq_some_iff :
    tree.getAs? key read = some value ↔ ∃ tag, tree.get? key = some tag ∧ read tag = some value :=
  Option.bind_eq_some_iff

theorem require_eq_ok_iff :
    tree.require key expected read = .ok value ↔ tree.getAs? key read = some value := by
  unfold require getAs?
  cases tree.get? key with
  | none => simp
  | some tag =>
      cases hread : read tag with
      | none => simp [hread]
      | some found => simp [hread]

end VoxelSchematic.Compound
