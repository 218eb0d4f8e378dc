import VoxelSchematic.Ieee.Format

/-!
# Floats as words

The two float types of the tag tree, kept as the bits that travel on the wire, so that no
payload of a NaN and no sign of a zero is lost.

* `Binary32.same` and `Binary64.same` compare as numbers: zeros are equal, a NaN is unequal to
  everything, itself included.
* `Binary32.widen` and `Binary64.narrow` change the width; narrowing rounds to nearest.
* `Binary64.ofInt` is the double nearest to an integer.
* `Binary64.mul` and `Binary64.div` are the exact results, rounded once.
-/

namespace VoxelSchematic.Ieee

structure Binary32 where
  bits : UInt32
deriving Repr, DecidableEq, Inhabited

structure Binary64 where
  bits : UInt64
deriving Repr, DecidableEq, Inhabited

namespace Binary32

/-- Puts a sign in front of the word of a magnitude. -/
def ofParts (negative : Bool) (word : Nat) : Binary32 :=
  ⟨UInt32.ofNat (if negative then word + single.signWeight else word)⟩

def zero : Binary32 := ⟨0⟩

def nan : Binary32 := ofParts false single.quietNan

def isNegative (x : Binary32) : Bool := single.signWeight ≤ x.bits.toNat

/-- The word below the sign. -/
def magnitude (x : Binary32) : Nat := x.bits.toNat % single.signWeight

def isNan (x : Binary32) : Bool := single.isNan x.magnitude

def same (x y : Binary32) : Bool :=
  !x.isNan && !y.isNan && (x.bits == y.bits || (x.magnitude == 0 && y.magnitude == 0))

def ofInt (n : Int) : Binary32 := ofParts (n < 0) (single.ofRatio n.natAbs 1)

end Binary32

namespace Binary64

def ofParts (negative : Bool) (word : Nat) : Binary64 :=
  ⟨UInt64.ofNat (if negative then word + double.signWeight else word)⟩

def zero : Binary64 := ⟨0⟩

def nan : Binary64 := ofParts false double.quietNan

def isNegative (x : Binary64) : Bool := double.signWeight ≤ x.bits.toNat

def magnitude (x : Binary64) : Nat := x.bits.toNat % double.signWeight

def isNan (x : Binary64) : Bool := double.isNan x.magnitude

def same (x y : Binary64) : Bool :=
  !x.isNan && !y.isNan && (x.bits == y.bits || (x.magnitude == 0 && y.magnitude == 0))

def ofInt (n : Int) : Binary64 := ofParts (n < 0) (double.ofRatio n.natAbs 1)

def negate (x : Binary64) : Binary64 := ofParts (!x.isNegative) x.magnitude

/-- The single nearest to a double. -/
def narrow (x : Binary64) : Binary32 :=
  .ofParts x.isNegative (single.convert double x.magnitude)

/-- The product of two finite doubles, rounded once. -/
def mul (x y : Binary64) : Binary64 :=
  ofParts (x.isNegative != y.isNegative)
    (double.ofScaled (double.significand x.magnitude * double.significand y.magnitude)
      (double.exponent x.magnitude + double.exponent y.magnitude))

/-- The quotient of a finite double by a finite double that is not zero, rounded once. -/
def div (x y : Binary64) : Binary64 :=
  let e := double.exponent x.magnitude - double.exponent y.magnitude
  ofParts (x.isNegative != y.isNegative)
    (double.ofRatio (double.significand x.magnitude <<< e.toNat)
      (double.significand y.magnitude <<< (-e).toNat))

end Binary64

def Binary32.widen (x : Binary32) : Binary64 :=
  .ofParts x.isNegative (double.convert single x.magnitude)

end VoxelSchematic.Ieee
