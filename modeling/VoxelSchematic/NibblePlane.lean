/-!
# Nibble planes

A plane of four-bit values, two to a byte. An even index has the low half of its byte and an odd
index the high half.
-/

namespace VoxelSchematic.NibblePlane

/-- The half of a byte in which an index lies. -/
def half (i : Nat) (byte : UInt8) : UInt8 := if i % 2 = 0 then byte &&& 0x0F else byte >>> 4

/-- A byte with the half replaced in which an index lies. -/
def withHalf (i : Nat) (value byte : UInt8) : UInt8 :=
  let raised : UInt8 := value <<< 4
  if i % 2 = 0 then (byte &&& 0xF0) ||| (value &&& 0x0F) else (byte &&& 0x0F) ||| raised

/-- The value of an index, if the plane reaches so far. -/
def get? (plane : Array UInt8) (i : Nat) : Option UInt8 :=
  plane[i / 2]?.map (half i)

/-- Puts the low four bits of a value; beyond the plane nothing happens. -/
def set (plane : Array UInt8) (i : Nat) (value : UInt8) : Array UInt8 :=
  plane.modify (i / 2) (withHalf i value)

/-- The number of bytes that hold `volume` values. It is counted in a word, so for the greatest
volume the sum wraps, and no bytes are left. -/
def sizeFor (volume : UInt64) : UInt64 := (volume + 1) / 2

def zeros (volume : Nat) : Array UInt8 := Array.replicate (sizeFor volume.toUInt64).toNat 0

/-- The plane that holds the low halves of the given values. -/
def ofValues (values : Array UInt8) : Array UInt8 :=
  Array.ofFn fun (k : Fin ((values.size + 1) / 2)) =>
    withHalf 1 (values[2 * k.val + 1]?.getD 0) (withHalf 0 (values[2 * k.val]?.getD 0) 0)

variable {plane : Array UInt8} {i : Nat}

theorem size_set (value : UInt8) : (set plane i value).size = plane.size := by simp [set]

theorem size_zeros {volume : Nat} (h : volume < UInt64.size - 1) :
    (zeros volume).size = (volume + 1) / 2 := by
  have hnext : (volume + 1) % UInt64.size = volume + 1 :=
    Nat.mod_eq_of_lt (Nat.add_lt_of_lt_sub h)
  simp only [UInt64.size] at hnext
  simp [zeros, sizeFor, Nat.toUInt64, hnext]

/-- A plane has a value for every index of which it has the byte. -/
theorem isSome_get?_iff : (get? plane i).isSome ↔ i / 2 < plane.size := by
  simp [get?]

end VoxelSchematic.NibblePlane
