import VoxelSchematic.Ieee.Binary
import VoxelSchematic.Ieee.Shortest
import VoxelSchematic.Json.Value
import VoxelSchematic.Json.Writer

/-!
# Floats in JSON

* `Numeral.toDouble?` and `Numeral.toSingle?` read a number. The leading digits that fit 64 bits
  make an integer, further digits only scale it; that integer is multiplied or divided by a
  power of ten, each step rounded on its own. A number beyond the largest float is refused.
* `Json.double` and `Json.single` write a float with the fewest digits that read back.
-/

namespace VoxelSchematic.Json

open Ieee

/-! ## Reading -/

namespace Numeral

def maxSignificand : Nat := UInt64.size - 1

/-- Takes digits into an integer as long as it fits; gives back those that no longer do. -/
def absorb (significand : Nat) : List Nat → Nat × List Nat
  | [] => (significand, [])
  | d :: ds =>
      if maxSignificand < 10 * significand + d then (significand, d :: ds)
      else absorb (10 * significand + d) ds

def powerOfTen (n : Nat) : Binary64 := .ofParts false (double.ofRatio (Nat.pow 10 n) 1)

def maxPower : Nat := 308

/-- Scales by a power of ten. Where the power is too small for a double, the division is done in
steps; three of them reach zero from any integer of 64 bits. -/
def scaleFrom (x : Binary64) (exponent : Int) : Nat → Option Binary64
  | 0 => some .zero
  | fuel + 1 =>
      if exponent.natAbs ≤ maxPower then
        if 0 ≤ exponent then
          let product := x.mul (powerOfTen exponent.toNat)
          if double.isFinite product.magnitude then some product else none
        else some (x.div (powerOfTen exponent.natAbs))
      else if x.magnitude = 0 then some x
      else if 0 ≤ exponent then none
      else scaleFrom (x.div (powerOfTen maxPower)) (exponent + maxPower) fuel

def statedExponent (n : Numeral) : Int :=
  match n.exponent with
  | none => 0
  | some (negative, ds) => if negative then -(ofDigits ds : Int) else ofDigits ds

/-- Whether the number is an integer of at most 64 bits, minus zero excepted. -/
def isSmallInteger (n : Numeral) : Bool :=
  match n.integer? with
  | some i => Int64.minValue.toInt ≤ i && i ≤ maxSignificand
  | none => false

def toDouble? (n : Numeral) : Option Binary64 := do
  let (whole, dropped) := absorb 0 n.whole
  let fraction := n.fraction.getD []
  let (significand, rest) := absorb whole fraction
  let exponent : Int := dropped.length - (fraction.length - rest.length : Nat) + n.statedExponent
  let x ← scaleFrom (.ofInt significand) exponent 4
  return if n.negative then x.negate else x

/-- The single that a number stands for; all but small integers are read as doubles first. -/
def toSingle? (n : Numeral) : Option Binary32 :=
  if n.isSmallInteger then n.integer?.map .ofInt else n.toDouble?.map Binary64.narrow

end Numeral

def Value.double? : Value → Option Binary64
  | .number n => n.toDouble?
  | _ => none

def Value.single? : Value → Option Binary32
  | .number n => n.toSingle?
  | _ => none

/-! ## Writing -/

/-- Where positional notation ends: with more digits than `most` before the point, or more zeros
than `zeros` behind it. -/
structure FloatLayout where
  most : Int
  zeros : Int

/-- Doubles are written positionally from `0.00001` on and below `10 ^ 16`. -/
def doubleLayout : FloatLayout := ⟨16, 5⟩

/-- Singles are written positionally from `0.000001` on and below `10 ^ 13`. -/
def singleLayout : FloatLayout := ⟨13, 6⟩

/-- The written form of an exponent, always with a sign. -/
def exponentText (exponent : Int) : List Char :=
  'e' :: (if exponent < 0 then '-' else '+') :: (toString exponent.natAbs).toList

/-- The written form of a decimal: a point with a digit behind it in positional notation, an
exponent of the first digit otherwise. -/
def FloatLayout.write (layout : FloatLayout) (d : Decimal) : List Char :=
  let digits := (toString d.digits).toList
  let point : Int := digits.length + d.exponent
  if 0 ≤ d.exponent ∧ point ≤ layout.most then
    digits ++ List.replicate d.exponent.toNat '0' ++ ['.', '0']
  else if 0 < point ∧ point ≤ layout.most then
    digits.take point.toNat ++ ['.'] ++ digits.drop point.toNat
  else if -layout.zeros < point ∧ point ≤ 0 then
    ['0', '.'] ++ List.replicate (-point).toNat '0' ++ digits
  else
    let fraction := if digits.length = 1 then [] else '.' :: digits.drop 1
    digits.take 1 ++ fraction ++ exponentText (point - 1)

/-- The written form of a word with its sign. What is no number becomes `null`. -/
def floatText (f : Format) (layout : FloatLayout) (negative : Bool) (word : Nat) : List Char :=
  if !f.isFinite word then "null".toList
  else
    let sign := if negative then ['-'] else []
    sign ++ (if word = 0 then ['0', '.', '0'] else layout.write (f.shortest word))

def double (x : Binary64) : List Char :=
  floatText Ieee.double doubleLayout x.isNegative x.magnitude

def single (x : Binary32) : List Char :=
  floatText Ieee.single singleLayout x.isNegative x.magnitude

end VoxelSchematic.Json
