import VoxelSchematic.Tag.Kind
import VoxelSchematic.Text.Quoted

/-!
# Rotations

* `AxisRotation` counts quarter turns about each axis; only the count modulo four matters.
* `AxisRotation.ofDegrees` refuses an angle that is no multiple of a quarter turn.
* `TransformError` says why a block cannot be turned.
-/

namespace VoxelSchematic

inductive TransformError where
  | notRightAngle (degrees : Int)
  | fieldType (field expected : String) (found : TagType)
  | missingField (field : String)
  | unknownSide (side : Int8)
deriving Repr, DecidableEq

namespace TransformError

def message : TransformError → String
  | .notRightAngle degrees => s!"rotation of {degrees} degrees is not a multiple of 90"
  | .fieldType field expected found =>
      s!"field {Text.quoted field} has type {found.name}, expected {expected}"
  | .missingField field => s!"field {Text.quoted field} is missing"
  | .unknownSide side => s!"unknown block side {side.toInt}"

end TransformError

structure AxisRotation where
  x : Fin 4 := 0
  y : Fin 4 := 0
  z : Fin 4 := 0
deriving Repr, DecidableEq, Inhabited

namespace AxisRotation

/-- What is left of a number of quarter turns after all full turns. -/
def quarterTurns (n : Int) : Fin 4 := ⟨(n % 4).toNat, by omega⟩

/-- Any number of quarter turns about each axis, in either direction. -/
def ofQuarterTurns (x y z : Int) : AxisRotation := ⟨quarterTurns x, quarterTurns y, quarterTurns z⟩

def turnsOfDegrees (degrees : Int) : Except TransformError Int :=
  if degrees % 90 = 0 then .ok (degrees / 90) else .error (.notRightAngle degrees)

/-- Angles about each axis. The first that is no multiple of a quarter turn is refused. -/
def ofDegrees (x y z : Int) : Except TransformError AxisRotation := do
  return ofQuarterTurns (← turnsOfDegrees x) (← turnsOfDegrees y) (← turnsOfDegrees z)

def aroundX (n : Int) : AxisRotation := ofQuarterTurns n 0 0

def aroundY (n : Int) : AxisRotation := ofQuarterTurns 0 n 0

def aroundZ (n : Int) : AxisRotation := ofQuarterTurns 0 0 n

def none : AxisRotation := {}

def isIdentity (r : AxisRotation) : Bool := r == none

def degrees (turns : Fin 4) : Nat := turns.val * 90

def text (r : AxisRotation) : String := s!"x={degrees r.x} y={degrees r.y} z={degrees r.z}"

instance : ToString AxisRotation := ⟨text⟩

end AxisRotation

end VoxelSchematic
