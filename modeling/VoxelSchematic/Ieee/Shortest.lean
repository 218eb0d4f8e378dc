import VoxelSchematic.Ieee.Format

/-!
# Shortest decimals

The decimal that identifies a float with the fewest digits.

* `Format.readsBack` holds of the decimals that round to a given word.
* `Format.shortest` tries one digit, two digits and so on. Of two decimals of the same length it
  takes the nearer; a tie goes to the even digit.
-/

namespace VoxelSchematic.Ieee

/-- The number `digits * 10 ^ exponent`. -/
structure Decimal where
  digits : Nat
  exponent : Int
deriving Repr, DecidableEq

namespace Decimal

/-- Compares `a * 10 ^ i` with `n * 2 ^ j`, exactly. -/
def compareScaled (a : Nat) (i : Int) (n : Nat) (j : Int) : Ordering :=
  compare ((a * Nat.pow 10 i.toNat) <<< (-j).toNat) ((n * Nat.pow 10 (-i).toNat) <<< j.toNat)

/-- Moves zeros at the end of the digits into the exponent. -/
def strip : Nat → Decimal → Decimal
  | 0, d => d
  | fuel + 1, d =>
      if d.digits ≠ 0 ∧ d.digits % 10 = 0 then strip fuel ⟨d.digits / 10, d.exponent + 1⟩ else d

end Decimal

namespace Format

variable (f : Format)

/-- Whether the gap below a word is half the gap above it, as it is for powers of two. -/
def hasNarrowGap (word : Nat) : Bool := f.fraction word = 0 && 1 < f.biasedExponent word

/-- Whether a decimal lies among the numbers that round to a word. The ends of that interval
belong to it where the significand is even. -/
def readsBack (word : Nat) (d : Decimal) : Bool :=
  let m := f.significand word
  let e := f.exponent word - 2
  let low := if f.hasNarrowGap word then 4 * m - 1 else 4 * m - 2
  let atLow := Decimal.compareScaled d.digits d.exponent low e
  let atHigh := Decimal.compareScaled d.digits d.exponent (4 * m + 2) e
  let even := m % 2 = 0
  (atLow = .gt || (even && atLow = .eq)) && (atHigh = .lt || (even && atHigh = .eq))

/-- The nearest decimals at or below and above a word whose last digit weighs `10 ^ place`. -/
def neighbours (word : Nat) (place : Int) : Decimal × Decimal :=
  let m := f.significand word
  let e := f.exponent word
  let q := (m * Nat.pow 10 (-place).toNat) <<< e.toNat / (Nat.pow 10 place.toNat <<< (-e).toNat)
  (⟨q, place⟩, ⟨q + 1, place⟩)

def nearer (word : Nat) (below above : Decimal) : Decimal :=
  match Decimal.compareScaled (below.digits + above.digits) below.exponent
      (2 * f.significand word) (f.exponent word) with
  | .lt => above
  | .gt => below
  | .eq => if below.digits % 2 = 0 then below else above

/-- A decimal with its last digit at `place` that reads back, if there is one. -/
def atPlace? (word : Nat) (place : Int) : Option Decimal :=
  let (below, above) := f.neighbours word place
  match f.readsBack word below, f.readsBack word above with
  | true, true => some (f.nearer word below above)
  | true, false => some below
  | false, true => some above
  | false, false => none

/-- The least `k` with `m * 2 ^ e < 10 ^ k`, found by counting up from a bound that is too low. -/
def scaleFrom (m : Nat) (e : Int) : Nat → Int → Int
  | 0, k => k
  | fuel + 1, k => if Decimal.compareScaled 1 k m e = .gt then k else scaleFrom m e fuel (k + 1)

/-- The number of digits before the point, negative where zeros follow it. -/
def scale (word : Nat) : Int :=
  let m := f.significand word
  let e := f.exponent word
  let bits := (m.log2 : Int) + e
  scaleFrom m e 8 (bits * 30103 / 100000 - 2)

/-- The decimal with the fewest digits that reads back; the exact value, should none of up to
seventeen digits do. The word is finite and not zero. -/
def shortest (word : Nat) : Decimal :=
  let k := f.scale word
  let found := (List.range 17).findSome? fun n => f.atPlace? word (k - (n + 1 : Nat))
  match found with
  | some d => d.strip 20
  | none =>
      let e := f.exponent word
      ⟨(f.significand word * Nat.pow 5 (-e).toNat) <<< e.toNat, -((-e).toNat : Int)⟩

end Format

end VoxelSchematic.Ieee
