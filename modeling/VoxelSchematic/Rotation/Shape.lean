import VoxelSchematic.Rotation.HookChain

/-!
# ArchitectureCraft

A shape of this kind keeps the side that it is attached to and a quarter turn about that side.
A rotation about an axis turns the shapes on the two sides that the axis goes through, in
opposite directions, and moves the others along the cycle of the four sides around it. About
`x` and `z` the shapes turn against the sense of the rotation.
-/

namespace VoxelSchematic

inductive Side where
  | down
  | up
  | north
  | south
  | west
  | east
deriving Repr, DecidableEq

namespace Side

/-- The sides in the order of their numbers. -/
def all : List Side := [down, up, north, south, west, east]

def toByte : Side → Int8
  | down => 0
  | up => 1
  | north => 2
  | south => 3
  | west => 4
  | east => 5

def ofByte? (n : Int8) : Option Side := all.find? fun side => side.toByte == n

/-- The sides around the axis `y`. -/
def cycleY : List Side := [north, east, south, west]

def cycleX : List Side := [down, south, up, north]

def cycleZ : List Side := [down, east, up, west]

/-- The side that lies some places after a side of a cycle. -/
def advance (cycle : List Side) (side : Side) (places : Nat) : Side :=
  match cycle.idxOf? side with
  | some i => cycle[(i + places) % cycle.length]?.getD side
  | none => side

end Side

/-- Where a shape is attached, and its quarter turn there. -/
structure Shape where
  side : Side
  turn : Int8
deriving Repr, DecidableEq

namespace Shape

/-- Adds quarter turns about the side. -/
def spin (s : Shape) (turns : Int) : Shape :=
  { s with turn := Int8.ofInt ((s.turn.toInt + turns) % 4) }

def aroundY (turns : Nat) (s : Shape) : Shape :=
  if turns = 0 then s
  else
    match s.side with
    | .down => s.spin turns
    | .up => s.spin (-turns)
    | side => { s with side := Side.advance Side.cycleY side (4 - turns) }

/-- About `x`, a shape that comes to lie on the south side is upside down. -/
def aroundX (turns : Nat) (s : Shape) : Shape :=
  if turns = 0 then s
  else
    match s.side with
    | .west => s.spin turns
    | .east => s.spin (-turns)
    | side =>
        let moved := { s with side := Side.advance Side.cycleX side turns }
        if moved.side = .south then moved.spin 2 else moved

/-- About `z`, a shape on the cycle turns as it moves. -/
def aroundZ (turns : Nat) (s : Shape) : Shape :=
  if turns = 0 then s
  else
    match s.side with
    | .south => s.spin turns
    | .north => s.spin (-turns)
    | side => { s with side := Side.advance Side.cycleZ side (4 - turns) }.spin (-turns)

/-- Turns a shape about `y`, then about `x`, then about `z`. -/
def rotate (rotation : AxisRotation) (s : Shape) : Shape :=
  aroundZ (-rotation.z).val (aroundX (-rotation.x).val (aroundY rotation.y.val s))

/-- The byte in a field; without the field, zero. -/
def byteField (tree : Compound) (field : String) : Except TransformError Int8 :=
  match tree.get? field with
  | none => .ok 0
  | some (.byte v) => .ok v
  | some tag => .error (.fieldType field "TAG_Byte" tag.kind)

def sideField : String := "side"

def turnField : String := "turn"

def ofTree (tree : Compound) : Except TransformError Shape := do
  let side ← byteField tree sideField
  let turn ← byteField tree turnField
  match Side.ofByte? side with
  | some side => return ⟨side, turn⟩
  | none => throw (.unknownSide side)

def writeTo (s : Shape) (tree : Compound) : Compound :=
  (tree.insert sideField (.byte s.side.toByte)).insert turnField (.byte s.turn)

def transform (tree : Compound) (rotation : AxisRotation) : HookAnswer :=
  if rotation.isIdentity then (.ok none, [])
  else
    match ofTree tree with
    | .error fault => (.error fault, [])
    | .ok shape => (.ok (some ((shape.rotate rotation).writeTo tree)), [])

def hook : Hook := ⟨"gcewing.shape", transform⟩

end Shape

end VoxelSchematic
