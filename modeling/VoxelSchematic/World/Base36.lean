/-!
# Numerals in base 36

A number is written with the digits `0` to `9` and `a` to `z`, without leading zeros, and with
a minus sign where it is negative.
-/

namespace VoxelSchematic.Base36

def digit (d : Nat) : Char :=
  if d < 10 then Char.ofNat ('0'.toNat + d) else Char.ofNat ('a'.toNat + (d - 10))

/-- The digits of a number, the weightiest first. -/
def digits (n : Nat) : List Char :=
  if n < 36 then [digit n] else digits (n / 36) ++ [digit (n % 36)]
termination_by n
decreasing_by omega

def chars (v : Int) : List Char :=
  if v < 0 then '-' :: digits v.natAbs else digits v.natAbs

def text (v : Int) : String := String.ofList (chars v)

end VoxelSchematic.Base36
