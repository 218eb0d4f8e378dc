import VoxelSchematic.Json.Float
import VoxelSchematic.Json.Reader
import VoxelSchematic.Space.Region

/-!
# Positions and regions as JSON

Each type is an object with a field for each of its parts. On reading, all fields must be there,
none twice; other fields are passed over, and an array that lists exactly the parts in order is
accepted as well. Writing gives an object on one line.
-/

namespace VoxelSchematic

open Json (Value)

def coordinate? (v : Value) : Option Int32 := do
  return Int32.ofInt (← v.integerIn? Int32.minValue.toInt Int32.maxValue.toInt)

def side? (v : Value) : Option UInt32 := do
  return UInt32.ofNat (← v.integerIn? 0 (UInt32.size - 1)).toNat

namespace BlockPos

def ofJson? (v : Value) : Option BlockPos := do
  match ← v.allFields? ["x", "y", "z"] with
  | [x, y, z] => return ⟨← coordinate? x, ← coordinate? y, ← coordinate? z⟩
  | _ => none

def toJson (p : BlockPos) : List Char :=
  Json.compactObject [("x", Json.integer p.x.toInt), ("y", Json.integer p.y.toInt),
    ("z", Json.integer p.z.toInt)]

end BlockPos

namespace Point

def ofJson? (v : Value) : Option Point := do
  match ← v.allFields? ["x", "y", "z"] with
  | [x, y, z] => return ⟨← x.double?, ← y.double?, ← z.double?⟩
  | _ => none

def toJson (p : Point) : List Char :=
  Json.compactObject [("x", Json.double p.x), ("y", Json.double p.y), ("z", Json.double p.z)]

end Point

namespace Facing

def ofJson? (v : Value) : Option Facing := do
  match ← v.allFields? ["yaw", "pitch"] with
  | [yaw, pitch] => return ⟨← yaw.single?, ← pitch.single?⟩
  | _ => none

def toJson (f : Facing) : List Char :=
  Json.compactObject [("yaw", Json.single f.yaw), ("pitch", Json.single f.pitch)]

end Facing

namespace Region

def ofJson? (v : Value) : Option Region := do
  match ← v.allFields? ["min", "width", "height", "length"] with
  | [min, width, height, length] =>
      return ⟨← BlockPos.ofJson? min, ← side? width, ← side? height,
        ← side? length⟩
  | _ => none

def toJson (r : Region) : List Char :=
  Json.compactObject [("min", r.min.toJson), ("width", Json.integer r.width.toNat),
    ("height", Json.integer r.height.toNat), ("length", Json.integer r.length.toNat)]

end Region

def readDocument? {α : Type} (ofJson? : Value → Option α) (text : String) : Option α := do
  ofJson? (← Json.read? text.toUTF8.data.toList)

end VoxelSchematic
