/-!
# Binary interchange formats

Magnitudes of the two IEEE 754 formats that the tag tree carries, handled by exact arithmetic
on natural numbers.

* `Format.significand` and `Format.exponent` read a word as `m * 2 ^ e`.
* `Format.ofRatio` is the word nearest to a quotient; a tie goes to the even significand.
* `Format.isNan` and `Format.isInfinite` tell the words apart that stand for no number.

All functions here speak of the bits below the sign.
-/

namespace VoxelSchematic.Ieee

/-- A format is fixed by the width of its two fields. -/
structure Format where
  fractionBits : Nat
  exponentBits : Nat
deriving Repr, DecidableEq

def single : Format := ⟨23, 8⟩

def double : Format := ⟨52, 11⟩

namespace Format

variable (f : Format)

/-- The word of positive infinity; every larger one is a NaN. -/
def infinity : Nat := ((1 <<< f.exponentBits) - 1) <<< f.fractionBits

def signWeight : Nat := 1 <<< (f.fractionBits + f.exponentBits)

/-- The exponent of the last place of the smallest numbers. -/
def leastExponent : Int := 2 - ((1 <<< (f.exponentBits - 1) : Nat) : Int) - (f.fractionBits : Int)

/-- The quiet NaN with an empty payload. -/
def quietNan : Nat := f.infinity + (1 <<< (f.fractionBits - 1))

def isNan (word : Nat) : Bool := f.infinity < word

def isInfinite (word : Nat) : Bool := word == f.infinity

def isFinite (word : Nat) : Bool := word < f.infinity

def fraction (word : Nat) : Nat := word % (1 <<< f.fractionBits)

def biasedExponent (word : Nat) : Nat := word >>> f.fractionBits

/-- The integer `m` of `m * 2 ^ e`; a word of biased exponent zero has no hidden bit. -/
def significand (word : Nat) : Nat :=
  if f.biasedExponent word = 0 then f.fraction word
  else (1 <<< f.fractionBits) + f.fraction word

/-- The exponent `e` of `m * 2 ^ e`. -/
def exponent (word : Nat) : Int :=
  f.leastExponent + ((f.biasedExponent word - 1 : Nat) : Int)

/-- `num / den` to the nearest integer, a tie to the even one. -/
def divideToEven (num den : Nat) : Nat :=
  let q := num / den
  let r := num % den
  if 2 * r < den then q
  else if den < 2 * r then q + 1
  else if q % 2 = 0 then q else q + 1

/-- The exponent of the last place of the word nearest to `num / den`: the quotient has
exactly the bits of a significand above it, unless the least exponent is reached first. -/
def placeOfRatio (num den : Nat) : Int :=
  let d : Int := (num.log2 : Int) - (den.log2 : Int)
  let reached := decide (den <<< d.toNat ≤ num <<< (-d).toNat)
  let top := if reached then d else d - 1
  max (top - f.fractionBits) f.leastExponent

/-- The word nearest to `num / den`, infinity where the quotient is too large. -/
def ofRatio (num den : Nat) : Nat :=
  if num = 0 then 0
  else
    let e := f.placeOfRatio num den
    let q := divideToEven (num <<< (-e).toNat) (den <<< e.toNat)
    min (((e - f.leastExponent).toNat <<< f.fractionBits) + q) f.infinity

def ofScaled (m : Nat) (e : Int) : Nat :=
  f.ofRatio (m <<< e.toNat) (1 <<< (-e).toNat)

/-- A word of another format, rounded to this one. A NaN becomes quiet and keeps the leading
bits of its payload. -/
def convert (source : Format) (word : Nat) : Nat :=
  if source.isNan word then
    let payload := (source.fraction word <<< f.fractionBits) >>> source.fractionBits
    f.infinity + (payload ||| (1 <<< (f.fractionBits - 1)))
  else if source.isInfinite word then f.infinity
  else f.ofScaled (source.significand word) (source.exponent word)

end Format

end VoxelSchematic.Ieee
