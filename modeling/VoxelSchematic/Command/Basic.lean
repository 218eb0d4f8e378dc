import VoxelSchematic.Registry.Basic
import VoxelSchematic.Schematic.Error
import VoxelSchematic.World.Error

/-!
# Commands

* `Command.parse` reads a command from the arguments of the program.
* `CommandError` is what can stop a command, in the words of what stopped it.
-/

namespace VoxelSchematic

inductive Command where
  /-- Tells what a schematic holds. -/
  | inspect (schematic : String) (registry : Option String)
  /-- Writes a schematic again with the numbers of a registry. -/
  | remap (input output registry : String)
  /-- Tells what is at a position of a world. -/
  | chunk (world : String) (position : BlockPos)
deriving Repr, DecidableEq

inductive UsageError where
  | noCommand
  | badArguments (name : String)
  | badCoordinate (text : String)
deriving Repr, DecidableEq

namespace UsageError

def message : UsageError → String
  | .noCommand => "no command given"
  | .badArguments name => s!"unknown command or wrong arguments for {Text.quoted name}"
  | .badCoordinate text => s!"{Text.quoted text} is not a block coordinate"

end UsageError

inductive CommandError where
  | usage (fault : UsageError)
  | schematic (fault : SchematicError)
  | chunk (fault : ChunkError)
  | registry (fault : RegistryError)
  /-- The medium failed outside of any of these. -/
  | io (reason : String)
deriving Repr, DecidableEq

namespace CommandError

def message : CommandError → String
  | .usage fault => fault.message
  | .schematic fault => fault.message
  | .chunk fault => fault.message
  | .registry fault => s!"could not load registry: {fault.message}"
  | .io reason => s!"IO error: {reason}"

end CommandError

namespace Command

def usage : String :=
  "usage: lectern inspect <file.schematic> [registry.json]\n"
    ++ "       lectern remap <in.schematic> <out.schematic> <registry.json>\n"
    ++ "       lectern chunk <world-dir> <x> <y> <z>"

/-- The value of decimal digits, of which there must be one. -/
def digitsValue? : List Char → Option Nat
  | [] => none
  | chars =>
      if chars.all Char.isDigit then
        some (chars.foldl (fun n c => 10 * n + (c.toNat - '0'.toNat)) 0)
      else none

/-- A whole number with a sign or without one. -/
def integer? : List Char → Option Int
  | '-' :: digits => (digitsValue? digits).map fun n => -(n : Int)
  | '+' :: digits => (digitsValue? digits).map Int.ofNat
  | digits => (digitsValue? digits).map Int.ofNat

/-- A coordinate, which must fit into 32 bits. -/
def coordinate (text : String) : Except UsageError Int32 :=
  match integer? text.toList with
  | some n =>
      if Int32.minValue.toInt ≤ n ∧ n ≤ Int32.maxValue.toInt then .ok (.ofInt n)
      else .error (.badCoordinate text)
  | none => .error (.badCoordinate text)

def parse : List String → Except UsageError Command
  | ["inspect", schematic] => .ok (.inspect schematic none)
  | ["inspect", schematic, registry] => .ok (.inspect schematic (some registry))
  | ["remap", input, output, registry] => .ok (.remap input output registry)
  | ["chunk", world, x, y, z] => do
      return .chunk world ⟨← coordinate x, ← coordinate y, ← coordinate z⟩
  | [] => .error .noCommand
  | name :: _ => .error (.badArguments name)

end Command

end VoxelSchematic
