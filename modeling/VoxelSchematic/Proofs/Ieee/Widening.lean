import Mathlib
import VoxelSchematic.Ieee.Binary

/-!
# Widening loses nothing

A number that a format has comes out of `Format.ofScaled` as its own word, however its value is
written as `m * 2 ^ e`. So narrowing undoes widening, but for the quiet bit of a NaN.
-/

namespace VoxelSchematic.Ieee

namespace Format

variable (f : Format) {m q w : Nat}

/-- A NaN with its quiet bit set; every other word as it is. -/
def quieted (w : Nat) : Nat :=
  if f.isNan w then f.infinity + (f.fraction w ||| (1 <<< (f.fractionBits - 1))) else w

/-! ## Exact quotients -/

theorem divideToEven_mul {den : Nat} (q : Nat) (hden : 0 < den) :
    divideToEven (q * den) den = q := by
  have hquotient : q * den / den = q := Nat.mul_div_cancel q hden
  have hrest : q * den % den = 0 := Nat.mul_mod_left q den
  unfold divideToEven
  rw [hquotient, hrest]
  exact if_pos hden

theorem log2_shiftLeft (hm : m ≠ 0) (k : Nat) : (m <<< k).log2 = m.log2 + k := by
  have hne : m <<< k ≠ 0 := by simpa [Nat.shiftLeft_eq_zero_iff] using hm
  rw [Nat.log2_eq_iff hne, Nat.shiftLeft_eq]
  constructor
  · rw [pow_add]
    exact Nat.mul_le_mul_right _ (Nat.log2_self_le hm)
  · rw [Nat.add_right_comm, pow_add]
    exact Nat.mul_lt_mul_of_pos_right Nat.lt_log2_self (Nat.two_pow_pos k)

/-- The last place is fixed by the leading bit of the value, unless that is too small. -/
theorem placeOfRatio_scaled (hm : m ≠ 0) (e : Int) :
    f.placeOfRatio (m <<< e.toNat) (1 <<< (-e).toNat) =
      max ((m.log2 : Int) + e - f.fractionBits) f.leastExponent := by
  have hlog : ((m <<< e.toNat).log2 : Int) - ((1 <<< (-e).toNat).log2 : Int) = m.log2 + e := by
    rw [log2_shiftLeft hm, Nat.one_shiftLeft, Nat.log2_two_pow]
    omega
  have hreached : (1 <<< (-e).toNat) <<< ((m.log2 : Int) + e).toNat ≤
      (m <<< e.toNat) <<< (-((m.log2 : Int) + e)).toNat := by
    have hexponent : (-e).toNat + ((m.log2 : Int) + e).toNat =
        m.log2 + (e.toNat + (-((m.log2 : Int) + e)).toNat) := by omega
    rw [← Nat.shiftLeft_add, ← Nat.shiftLeft_add, hexponent, Nat.one_shiftLeft, Nat.shiftLeft_eq,
      pow_add]
    exact Nat.mul_le_mul_right _ (Nat.log2_self_le hm)
  unfold placeOfRatio
  simp only [hlog, hreached, decide_true, if_true]

/-- Nothing is rounded off where the significand reaches no lower than the last place. -/
theorem ofScaled_of_exact {e place : Int} (hm : m ≠ 0)
    (hplace : max ((m.log2 : Int) + e - f.fractionBits) f.leastExponent = place)
    (exact : m <<< (e - place).toNat = q <<< (place - e).toNat) :
    f.ofScaled m e =
      min (((place - f.leastExponent).toNat <<< f.fractionBits) + q) f.infinity := by
  have hne : m <<< e.toNat ≠ 0 := by simpa [Nat.shiftLeft_eq_zero_iff] using hm
  -- The shifts on both sides of the quotient differ from those of `exact` by the same amount.
  have hcommon : ∃ c, e.toNat + (-place).toNat = (e - place).toNat + c ∧
      (-e).toNat + place.toNat = (place - e).toNat + c :=
    ⟨e.toNat + (-place).toNat - (e - place).toNat, by omega, by omega⟩
  have hquotient : divideToEven ((m <<< e.toNat) <<< (-place).toNat)
      ((1 <<< (-e).toNat) <<< place.toNat) = q := by
    rcases hcommon with ⟨c, hnum, hden⟩
    have hmul : (m <<< e.toNat) <<< (-place).toNat = q * (1 <<< (-e).toNat) <<< place.toNat := by
      rw [← Nat.shiftLeft_add, ← Nat.shiftLeft_add, hnum, hden, Nat.shiftLeft_add, exact,
        Nat.one_shiftLeft, ← Nat.shiftLeft_add, Nat.shiftLeft_eq]
    rw [hmul]
    exact divideToEven_mul q (by simp [Nat.shiftLeft_eq])
  rw [ofScaled, ofRatio, if_neg hne]
  simp only [placeOfRatio_scaled f hm, hplace, hquotient]

/-! ## Words and their fields -/

theorem fraction_lt (w : Nat) : f.fraction w < 2 ^ f.fractionBits := by
  rw [fraction, Nat.one_shiftLeft]
  exact Nat.mod_lt w (Nat.two_pow_pos _)

theorem biasedExponent_fraction (w : Nat) :
    f.biasedExponent w * 2 ^ f.fractionBits + f.fraction w = w := by
  rw [biasedExponent, fraction, Nat.shiftRight_eq_div_pow, Nat.one_shiftLeft, Nat.mul_comm]
  exact Nat.div_add_mod w _

/-- A word is its last place beside its significand. -/
theorem word_eq (w : Nat) :
    ((f.exponent w - f.leastExponent).toNat <<< f.fractionBits) + f.significand w = w := by
  have hword := f.biasedExponent_fraction w
  have hplace : (f.exponent w - f.leastExponent).toNat = f.biasedExponent w - 1 := by
    unfold exponent
    omega
  rw [hplace, Nat.shiftLeft_eq, significand]
  by_cases hzero : f.biasedExponent w = 0
  · rw [if_pos hzero, hzero]
    rw [hzero] at hword
    exact hword
  · have hsucc : f.biasedExponent w - 1 + 1 = f.biasedExponent w :=
      Nat.succ_pred_eq_of_ne_zero hzero
    rw [if_neg hzero, Nat.one_shiftLeft, ← Nat.add_assoc, ← Nat.succ_mul, Nat.succ_eq_add_one, hsucc]
    exact hword

/-- The last place of a word is the one that its value calls for. -/
theorem place_of_word (hs : f.significand w ≠ 0) :
    max (((f.significand w).log2 : Int) + f.exponent w - f.fractionBits) f.leastExponent =
      f.exponent w := by
  have hfraction := f.fraction_lt w
  by_cases hzero : f.biasedExponent w = 0
  -- Without a hidden bit the leading bit is too low, and the least exponent takes over.
  · have hsignificand : f.significand w = f.fraction w := if_pos hzero
    have hlog : (f.significand w).log2 < f.fractionBits := by
      rw [Nat.log2_lt hs, hsignificand]
      exact hfraction
    have hexponent : f.exponent w = f.leastExponent := by simp [exponent, hzero]
    rw [hexponent]
    exact max_eq_right (by omega)
  -- The hidden bit is the leading bit, just above the fraction.
  · have hsignificand : f.significand w = 2 ^ f.fractionBits + f.fraction w := by
      rw [significand, if_neg hzero, Nat.one_shiftLeft]
    have hlog : (f.significand w).log2 = f.fractionBits := by
      rw [Nat.log2_eq_iff hs, hsignificand, pow_succ]
      omega
    rw [hlog, exponent]
    omega

theorem ofScaled_zero (e : Int) : f.ofScaled 0 e = 0 := by simp [ofScaled, ofRatio]

theorem eq_zero_of_significand (hs : f.significand w = 0) : w = 0 := by
  have hbiased : f.biasedExponent w = 0 := by
    by_contra hne
    rw [significand, if_neg hne, Nat.one_shiftLeft] at hs
    exact absurd hs (Nat.ne_of_gt (Nat.add_pos_left (Nat.two_pow_pos _) _))
  have hword := f.word_eq w
  rw [hs, exponent, hbiased] at hword
  simpa using hword.symm

/-- A finite word is the one of its value, with whatever exponent that is written. -/
theorem ofScaled_word (hw : w < f.infinity) (k : Nat) :
    f.ofScaled (f.significand w <<< k) (f.exponent w - k) = w := by
  by_cases hs : f.significand w = 0
  · rw [hs, Nat.zero_shiftLeft, ofScaled_zero, f.eq_zero_of_significand hs]
  -- The shift moves the leading bit and the exponent by the same amount, so the last place stays.
  · have hne : f.significand w <<< k ≠ 0 := by simpa [Nat.shiftLeft_eq_zero_iff] using hs
    have hplace : max (((f.significand w <<< k).log2 : Int) + (f.exponent w - k) - f.fractionBits)
        f.leastExponent = f.exponent w := by
      have hsum : ((f.significand w <<< k).log2 : Int) + (f.exponent w - k) =
          (f.significand w).log2 + f.exponent w := by
        rw [log2_shiftLeft hs]
        omega
      rw [hsum]
      exact f.place_of_word hs
    have hexact : (f.significand w <<< k) <<< (f.exponent w - k - f.exponent w).toNat =
        f.significand w <<< (f.exponent w - (f.exponent w - k)).toNat := by
      have hdown : (f.exponent w - k - f.exponent w).toNat = 0 := by omega
      have hup : (f.exponent w - (f.exponent w - k)).toNat = k := by omega
      rw [hdown, hup, Nat.shiftLeft_zero]
    rw [f.ofScaled_of_exact hne hplace hexact, f.word_eq]
    exact min_eq_left (Nat.le_of_lt hw)

/-- The fields of a word whose significand has its leading bit. -/
theorem fields_of_parts (a : Nat) (hlow : 2 ^ f.fractionBits ≤ q)
    (hhigh : q < 2 ^ (f.fractionBits + 1)) :
    f.significand ((a <<< f.fractionBits) + q) = q ∧
      f.exponent ((a <<< f.fractionBits) + q) = f.leastExponent + a := by
  have hpos : 0 < 2 ^ f.fractionBits := Nat.two_pow_pos _
  have hrest : q - 2 ^ f.fractionBits < 2 ^ f.fractionBits := by
    rw [pow_succ] at hhigh
    omega
  have hparts : (a <<< f.fractionBits) + q =
      2 ^ f.fractionBits * (a + 1) + (q - 2 ^ f.fractionBits) := by
    rw [Nat.shiftLeft_eq, Nat.mul_add_one, Nat.add_assoc, Nat.add_sub_cancel' hlow, Nat.mul_comm]
  have hbiased : f.biasedExponent ((a <<< f.fractionBits) + q) = a + 1 := by
    rw [biasedExponent, Nat.shiftRight_eq_div_pow, hparts, Nat.mul_add_div hpos,
      Nat.div_eq_of_lt hrest, Nat.add_zero]
  have hfraction : f.fraction ((a <<< f.fractionBits) + q) = q - 2 ^ f.fractionBits := by
    rw [fraction, Nat.one_shiftLeft, hparts, Nat.mul_add_mod, Nat.mod_eq_of_lt hrest]
  constructor
  · rw [significand, hbiased, hfraction, if_neg (Nat.succ_ne_zero a), Nat.one_shiftLeft]
    exact Nat.add_sub_cancel' hlow
  · rw [exponent, hbiased]
    simp

/-! ## Conversions -/

theorem convert_of_finite (source : Format) (hw : w < source.infinity) :
    f.convert source w = f.ofScaled (source.significand w) (source.exponent w) := by
  have hnumber : source.isNan w = false := by simpa [isNan] using Nat.le_of_lt hw
  have hfinite : source.isInfinite w = false := by simpa [isInfinite] using Nat.ne_of_lt hw
  rw [convert, hnumber, hfinite, if_neg Bool.false_ne_true, if_neg Bool.false_ne_true]

theorem convert_infinity (source : Format) : f.convert source source.infinity = f.infinity := by
  simp [convert, isNan, isInfinite]

theorem convert_of_isNan (source : Format) (h : source.isNan w = true) :
    f.convert source w = f.infinity +
      ((source.fraction w <<< f.fractionBits) >>> source.fractionBits |||
        (1 <<< (f.fractionBits - 1))) :=
  if_pos h

/-! ## Singles among doubles -/

theorem leastExponent_single : single.leastExponent = -149 := rfl

theorem leastExponent_double : double.leastExponent = -1074 := rfl

theorem exponent_single (hw : w < single.infinity) :
    -149 ≤ single.exponent w ∧ single.exponent w ≤ 104 := by
  have hbiased : single.biasedExponent w < 255 := by
    rw [biasedExponent, Nat.shiftRight_eq_div_pow]
    exact Nat.div_lt_of_lt_mul hw
  rw [exponent, leastExponent_single]
  omega

/-- The significand of a single, shifted up until it fills that of a double. -/
theorem shifted_significand (hs : single.significand w ≠ 0) :
    ∃ k : Nat, (single.significand w).log2 + k = 52 ∧
      2 ^ 52 ≤ single.significand w <<< k ∧ single.significand w <<< k < 2 ^ 53 := by
  have hlog : (single.significand w).log2 < 24 := by
    have hfraction : single.fraction w < 2 ^ 23 := single.fraction_lt w
    rw [Nat.log2_lt hs, significand]
    split
    · exact Nat.lt_trans hfraction (by decide)
    · exact Nat.add_lt_add_left hfraction _
  rcases Nat.exists_eq_add_of_le (show (single.significand w).log2 ≤ 52 by omega) with ⟨k, hk⟩
  have hne : single.significand w <<< k ≠ 0 := by simpa [Nat.shiftLeft_eq_zero_iff] using hs
  refine ⟨k, hk.symm, ?_⟩
  exact (Nat.log2_eq_iff hne).1 (by rw [log2_shiftLeft hs, hk])

/-- The double of a finite single has the significand of the single, shifted to the top. -/
theorem convert_finite (hw : w < single.infinity) (hs : single.significand w ≠ 0) :
    ∃ k : Nat, double.convert single w < double.infinity ∧
      double.significand (double.convert single w) = single.significand w <<< k ∧
      double.exponent (double.convert single w) = single.exponent w - k := by
  have hexponent := exponent_single hw
  rcases shifted_significand hs with ⟨k, hk, hlow, hhigh⟩
  -- The last place of the double; even that of the smallest single lies far above the least one.
  rcases Int.eq_ofNat_of_zero_le (show 0 ≤ single.exponent w - k + 1074 by omega) with ⟨a, ha⟩
  have hplace : max (((single.significand w).log2 : Int) + single.exponent w - double.fractionBits)
      double.leastExponent = single.exponent w - k := by
    have hbits : double.fractionBits = 52 := rfl
    rw [leastExponent_double, hbits]
    omega
  have hexact : single.significand w <<< (single.exponent w - (single.exponent w - k)).toNat =
      (single.significand w <<< k) <<< (single.exponent w - k - single.exponent w).toNat := by
    have hup : (single.exponent w - (single.exponent w - k)).toNat = k := by omega
    have hdown : (single.exponent w - k - single.exponent w).toNat = 0 := by omega
    rw [hup, hdown, Nat.shiftLeft_zero]
  have hfits : (a <<< 52) + single.significand w <<< k < double.infinity := by
    have hinfinity : double.infinity = 2047 * 2 ^ 52 := rfl
    rw [hinfinity, Nat.shiftLeft_eq]
    omega
  have hconvert : double.convert single w = (a <<< 52) + single.significand w <<< k := by
    have hlast : (single.exponent w - k - double.leastExponent).toNat = a := by
      rw [leastExponent_double]
      omega
    rw [convert_of_finite double single hw, double.ofScaled_of_exact hs hplace hexact, hlast]
    exact min_eq_left (Nat.le_of_lt hfits)
  rcases double.fields_of_parts a hlow hhigh with ⟨hsignificand, hlast⟩
  rw [hconvert]
  refine ⟨k, hfits, hsignificand, hlast.trans ?_⟩
  rw [leastExponent_double]
  omega

theorem narrow_widen_finite (hw : w < single.infinity) :
    double.convert single w < double.infinity ∧
      single.convert double (double.convert single w) = w := by
  by_cases hs : single.significand w = 0
  · have hzero := single.eq_zero_of_significand hs
    subst hzero
    have hwide : double.convert single 0 = 0 := by
      rw [convert_of_finite double single hw, hs, ofScaled_zero]
    rw [hwide]
    exact ⟨by decide, by rw [convert_of_finite single double (by decide)]; exact ofScaled_zero _ _⟩
  · rcases convert_finite hw hs with ⟨k, hfits, hsignificand, hexponent⟩
    refine ⟨hfits, ?_⟩
    rw [convert_of_finite single double hfits, hsignificand, hexponent]
    exact single.ofScaled_word hw k

/-- A NaN keeps its payload in the leading bits of the wider one. -/
theorem narrow_widen_nan (h : single.isNan w = true) :
    double.convert single w < double.signWeight ∧
      single.convert double (double.convert single w) = single.quieted w := by
  have hfraction : single.fraction w < 2 ^ 23 := single.fraction_lt w
  -- On the way up the payload moves by the 29 bits that a double has more.
  have hpayload : (single.fraction w <<< 52) >>> 23 = single.fraction w <<< 29 := by
    rw [show (52 : Nat) = 29 + 23 from rfl, Nat.shiftLeft_add, Nat.shiftLeft_shiftRight]
  have hlow : single.fraction w <<< 29 ||| 1 <<< 51 < 2 ^ 52 := by
    refine Nat.or_lt_two_pow ?_ (by decide)
    rw [Nat.shiftLeft_eq]
    omega
  have hwide : double.convert single w = double.infinity + (single.fraction w <<< 29 ||| 1 <<< 51) := by
    rw [convert_of_isNan double single h]
    exact congrArg (fun payload => double.infinity + (payload ||| 1 <<< 51)) hpayload
  have hpos : 0 < single.fraction w <<< 29 ||| 1 <<< 51 :=
    Nat.lt_of_lt_of_le (by decide) Nat.right_le_or
  have hnan : double.isNan (double.convert single w) = true := by
    rw [hwide, isNan]
    exact decide_eq_true (Nat.lt_add_of_pos_right hpos)
  have hkept : double.fraction (double.convert single w) = single.fraction w <<< 29 ||| 1 <<< 51 := by
    have hinfinity : double.infinity = 2 ^ 52 * 2047 := rfl
    rw [hwide, fraction, hinfinity]
    exact (Nat.mul_add_mod _ _ _).trans (Nat.mod_eq_of_lt hlow)
  -- On the way down it moves back, and so does the quiet bit.
  have hback : ((single.fraction w <<< 29 ||| 1 <<< 51) <<< 23) >>> 52 =
      single.fraction w ||| 1 <<< 22 := by
    rw [show (52 : Nat) = 23 + 29 from rfl, Nat.shiftRight_add, Nat.shiftLeft_shiftRight,
      Nat.shiftRight_or_distrib, Nat.shiftLeft_shiftRight]
    rfl
  constructor
  · have hweight : double.signWeight = double.infinity + 2 ^ 52 := rfl
    rw [hwide, hweight]
    exact Nat.add_lt_add_left hlow _
  · rw [convert_of_isNan single double hnan, hkept, quieted, if_pos h]
    refine congrArg (single.infinity + ·) ?_
    exact (congrArg (· ||| 1 <<< 22) hback).trans (by rw [Nat.or_assoc, Nat.or_self]; rfl)

/-! ## Narrowed words -/

theorem ofRatio_le_infinity (num den : Nat) : f.ofRatio num den ≤ f.infinity := by
  unfold ofRatio
  split
  · exact Nat.zero_le _
  · exact Nat.min_le_right _ _

/-- A single NaN with its quiet bit set has it set. -/
theorem quieted_nan {payload : Nat} (h : payload < 2 ^ 23) :
    single.infinity + (payload ||| 1 <<< 22) < single.signWeight ∧
      single.quieted (single.infinity + (payload ||| 1 <<< 22)) =
        single.infinity + (payload ||| 1 <<< 22) := by
  have hinfinity : single.infinity = 2 ^ 23 * 255 := rfl
  have hlow : payload ||| 1 <<< 22 < 2 ^ 23 := Nat.or_lt_two_pow h (by decide)
  have hpos : 0 < payload ||| 1 <<< 22 := Nat.lt_of_lt_of_le (by decide) Nat.right_le_or
  have hnan : single.isNan (single.infinity + (payload ||| 1 <<< 22)) = true :=
    decide_eq_true (Nat.lt_add_of_pos_right hpos)
  have hkept : single.fraction (single.infinity + (payload ||| 1 <<< 22)) = payload ||| 1 <<< 22 := by
    rw [fraction, hinfinity]
    exact (Nat.mul_add_mod _ _ _).trans (Nat.mod_eq_of_lt hlow)
  constructor
  · have hweight : single.signWeight = single.infinity + 2 ^ 23 := rfl
    rw [hweight]
    exact Nat.add_lt_add_left hlow _
  · rw [quieted, if_pos hnan, hkept]
    exact congrArg (single.infinity + ·)
      ((Nat.or_assoc _ _ _).trans (congrArg (payload ||| ·) (Nat.or_self (1 <<< 22))))

/-- What is rounded to a single is a single, and has its quiet bit set if it is a NaN. -/
theorem quieted_convert (source : Format) (w : Nat) :
    single.convert source w < single.signWeight ∧
      single.quieted (single.convert source w) = single.convert source w := by
  by_cases hnan : source.isNan w = true
  · have hfraction : source.fraction w < 2 ^ source.fractionBits := source.fraction_lt w
    have hpayload : (source.fraction w <<< 23) >>> source.fractionBits < 2 ^ 23 := by
      rw [Nat.shiftRight_eq_div_pow, Nat.shiftLeft_eq]
      exact Nat.div_lt_of_lt_mul (Nat.mul_lt_mul_of_pos_right hfraction (by decide))
    rw [convert_of_isNan single source hnan]
    exact quieted_nan hpayload
  · have hword : single.convert source w ≤ single.infinity := by
      rw [convert, if_neg hnan]
      split
      · exact Nat.le_refl _
      · exact ofRatio_le_infinity _ _ _
    have hnumber : single.isNan (single.convert source w) = false := by simpa [isNan] using hword
    constructor
    · exact Nat.lt_of_le_of_lt hword (by decide)
    · rw [quieted, hnumber]
      exact if_neg Bool.false_ne_true

/-- Narrowing undoes widening, but for the quiet bit of a NaN. -/
theorem narrow_widen (w : Nat) :
    double.convert single w < double.signWeight ∧
      single.convert double (double.convert single w) = single.quieted w := by
  rcases Nat.lt_trichotomy w single.infinity with hfinite | hinfinite | hnan
  · rcases narrow_widen_finite hfinite with ⟨hfits, hsame⟩
    have hnumber : single.isNan w = false := by simpa [isNan] using Nat.le_of_lt hfinite
    rw [hsame, quieted, hnumber]
    exact ⟨Nat.lt_trans hfits (by decide), (if_neg Bool.false_ne_true).symm⟩
  · rw [hinfinite, convert_infinity, convert_infinity]
    exact ⟨by decide, rfl⟩
  · exact narrow_widen_nan (decide_eq_true hnan)

end Format

theorem Binary64.parts_ofParts (negative : Bool) {word : Nat} (h : word < double.signWeight) :
    (ofParts negative word).isNegative = negative ∧ (ofParts negative word).magnitude = word := by
  have hweight : 2 * double.signWeight = 2 ^ 64 := rfl
  have hbits : (ofParts negative word).bits.toNat =
      if negative then word + double.signWeight else word := by
    refine Nat.mod_eq_of_lt ?_
    split
    · omega
    · omega
  rw [isNegative, magnitude, hbits]
  cases negative with
  | true =>
      exact ⟨decide_eq_true (Nat.le_add_left _ _),
        (Nat.add_mod_right _ _).trans (Nat.mod_eq_of_lt h)⟩
  | false => exact ⟨decide_eq_false (Nat.not_le.2 h), Nat.mod_eq_of_lt h⟩

namespace Binary32

/-- The single with the quiet bit set, if it is a NaN. -/
def quieted (x : Binary32) : Binary32 := ofParts x.isNegative (single.quieted x.magnitude)

/-- The sign and the magnitude make up the word. -/
theorem ofParts_parts (x : Binary32) : ofParts x.isNegative x.magnitude = x := by
  rcases x with ⟨bits⟩
  have hbits : bits.toNat < 2 * single.signWeight := bits.toNat_lt
  refine congrArg Binary32.mk (UInt32.toNat_inj.1 ?_)
  have hword : (if single.signWeight ≤ bits.toNat
      then bits.toNat % single.signWeight + single.signWeight
      else bits.toNat % single.signWeight) = bits.toNat := by
    split
    · next hnegative =>
        rw [Nat.mod_eq_sub_mod hnegative, Nat.mod_eq_of_lt (by omega)]
        exact Nat.sub_add_cancel hnegative
    · next hpositive => exact Nat.mod_eq_of_lt (Nat.not_le.1 hpositive)
  simp only [isNegative, magnitude, decide_eq_true_eq, hword]
  simp

theorem parts_ofParts (negative : Bool) {word : Nat} (h : word < single.signWeight) :
    (ofParts negative word).isNegative = negative ∧ (ofParts negative word).magnitude = word := by
  have hweight : 2 * single.signWeight = 2 ^ 32 := rfl
  have hbits : (ofParts negative word).bits.toNat =
      if negative then word + single.signWeight else word := by
    refine Nat.mod_eq_of_lt ?_
    split
    · omega
    · omega
  rw [isNegative, magnitude, hbits]
  cases negative with
  | true =>
      exact ⟨decide_eq_true (Nat.le_add_left _ _),
        (Nat.add_mod_right _ _).trans (Nat.mod_eq_of_lt h)⟩
  | false => exact ⟨decide_eq_false (Nat.not_le.2 h), Nat.mod_eq_of_lt h⟩

/-- Everything but a NaN is quiet. -/
theorem quieted_of_not_isNan {x : Binary32} (h : x.isNan = false) : x.quieted = x := by
  have hword : single.quieted x.magnitude = x.magnitude := by
    rw [Format.quieted]
    exact if_neg (by rw [show single.isNan x.magnitude = false from h]; exact Bool.false_ne_true)
  rw [quieted, hword, ofParts_parts]

theorem narrow_widen (x : Binary32) : x.widen.narrow = x.quieted := by
  rcases Format.narrow_widen x.magnitude with ⟨hfits, hsame⟩
  rcases Binary64.parts_ofParts x.isNegative hfits with ⟨hnegative, hmagnitude⟩
  rw [Binary64.narrow, widen, hnegative, hmagnitude, hsame, quieted]

/-- Narrowing makes no NaN that is not quiet. -/
theorem quieted_narrow (x : Binary64) : x.narrow.quieted = x.narrow := by
  rcases Format.quieted_convert double x.magnitude with ⟨hfits, hsame⟩
  rcases parts_ofParts x.isNegative hfits with ⟨hnegative, hmagnitude⟩
  rw [Binary64.narrow, quieted, hnegative, hmagnitude, hsame]

end Binary32

end VoxelSchematic.Ieee
