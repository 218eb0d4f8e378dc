import VoxelSchematic.Content.Cell
import VoxelSchematic.Report
import VoxelSchematic.Rotation.Basic

/-!
# Hook chains

Turning the tile entity of a cell.

* A `Hook` turns the tile entities of one name. It answers with a new tree, with `none` where
  the tree needs no change, or with an error; in any case it may give notice.
* `HookChain.turn` offers a tree to the hooks in order. Each sees what the hooks before it have
  left, so one that changes the name decides which later hooks run.
* `HookChain.apply` turns a cell. If any hook fails, the cell stays exactly as it was.
* `HookChain.applyInPlace` does the same to a cell that it changes on the way.
-/

namespace VoxelSchematic

/-- What a hook makes of a tree, and what it says along the way. -/
abbrev HookAnswer := Except TransformError (Option Compound) × List Notice

/-- What turns the tile entities of one name. -/
structure Hook where
  tileEntityId : String
  transform : Compound → AxisRotation → HookAnswer

/-- Hooks in the order in which they run. -/
structure HookChain where
  hooks : List Hook := []

namespace HookChain

def size (c : HookChain) : Nat := c.hooks.length

def isEmpty (c : HookChain) : Bool := c.hooks.isEmpty

def text (c : HookChain) : String :=
  "[" ++ ", ".intercalate (c.hooks.map fun hook => Text.quoted hook.tileEntityId) ++ "]"

instance : ToString HookChain := ⟨text⟩

def turnedNote (id : String) (rotation : AxisRotation) : Notice :=
  .logged .trace s!"{id} rotated by {rotation.text}"

def failureNote (id : String) (rotation : AxisRotation) (fault : TransformError) : Notice :=
  .warning s!"Could not rotate {id} by {rotation.text}: {fault.message}"

def handles (hook : Hook) (tree : Compound) : Bool :=
  tree.getString? "id" == some hook.tileEntityId

/-- The tree after all hooks that are for it; `none` if one of them fails. -/
def turn (rotation : AxisRotation) : List Hook → Compound → Option Compound × List Notice
  | [], tree => (some tree, [])
  | hook :: rest, tree =>
      if handles hook tree then
        match hook.transform tree rotation with
        | (.ok (some turned), said) =>
            let (outcome, later) := turn rotation rest turned
            (outcome, said ++ turnedNote hook.tileEntityId rotation :: later)
        | (.ok none, said) =>
            let (outcome, later) := turn rotation rest tree
            (outcome, said ++ later)
        | (.error fault, said) =>
            (none, said ++ [failureNote hook.tileEntityId rotation fault])
      else turn rotation rest tree

/-- Turns a cell. Without a tree or without a turn, no hook runs. -/
def apply (c : HookChain) (cell : Cell) (rotation : AxisRotation) : Cell × List Notice :=
  match cell.tree with
  | none => (cell, [])
  | some tree =>
      if rotation.isIdentity then (cell, [])
      else
        match turn rotation c.hooks tree with
        | (some turned, said) => ({ cell with tree := some turned }, said)
        | (none, said) => (cell, said)

/-- Turns the tree in a cell with all hooks that are for it. Tells whether all of them succeeded. -/
def turnInPlace (rotation : AxisRotation) : List Hook → StateM Cell (Bool × List Notice)
  | [] => return (true, [])
  | hook :: rest => do
      match (← get).tree with
      | none => return (true, [])
      | some tree =>
          if handles hook tree then
            match hook.transform tree rotation with
            | (.ok (some turned), said) => do
                modify fun cell => { cell with tree := some turned }
                let (done, later) ← turnInPlace rotation rest
                return (done, said ++ turnedNote hook.tileEntityId rotation :: later)
            | (.ok none, said) => do
                let (done, later) ← turnInPlace rotation rest
                return (done, said ++ later)
            | (.error fault, said) =>
                return (false, said ++ [failureNote hook.tileEntityId rotation fault])
          else turnInPlace rotation rest

/-- Turns a cell in its place. If any hook fails, the tree that it had is put back. -/
def applyInPlace (c : HookChain) (rotation : AxisRotation) : StateM Cell (List Notice) := do
  let original := (← get).tree
  if rotation.isIdentity || original.isNone then return []
  let (done, said) ← turnInPlace rotation c.hooks
  unless done do modify fun cell => { cell with tree := original }
  return said

end HookChain

end VoxelSchematic
