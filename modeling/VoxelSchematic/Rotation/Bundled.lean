import VoxelSchematic.Content.Clipboard
import VoxelSchematic.Rotation.Shape
import VoxelSchematic.Rotation.Slope

/-!
# Turning whole clipboards

The hooks that come with the library, and what they make of the cells of a clipboard.
-/

namespace VoxelSchematic

/-- The hooks that come with the library. -/
def HookChain.bundled : HookChain := ⟨[Slope.hook, Shape.hook]⟩

/-- Turns the tile entity of every cell; the cells stay where they are. -/
def Clipboard.turnCells (c : Clipboard) (chain : HookChain) (rotation : AxisRotation) :
    Clipboard × List Notice :=
  (c.map fun cell => (chain.apply cell rotation).1,
    c.cells.toList.flatMap fun cell => (chain.apply cell rotation).2)

end VoxelSchematic
