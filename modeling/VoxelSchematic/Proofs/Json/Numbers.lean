import VoxelSchematic.Json.Reader
import VoxelSchematic.Json.Writer
import VoxelSchematic.Proofs.Text.Bytes

/-!
# Natural numbers, there and back

What is written for a natural number is read as the number again, up to whatever cannot continue a
number.

* `EndsNumber` says of bytes that they do not continue a number.
* `toDigits_eq_cons`: no number but zero is written with a leading zero.
* `numeral_integer`: a scan takes the digits of a written number.
* `integer?_ofNat`: these digits mean the number.
-/

namespace VoxelSchematic.Json

open Text

variable {c : Char} {chars : List Char} {rest : List UInt8} {n : Nat}

/-! ## Digits -/

/-- The byte of a digit. -/
def digitByte (c : Char) : UInt8 := UInt8.ofNat c.toNat

/-- The value of a digit. -/
def digitValue (c : Char) : Nat := c.toNat - '0'.toNat

theorem toNat_digitByte (h : c.isDigit = true) : (digitByte c).toNat = c.toNat := by
  have hhigh : c.toNat ≤ 57 := (Char.isDigit_iff_toNat.1 h).2
  exact UInt8.toNat_ofNat_of_lt' (Nat.lt_of_le_of_lt hhigh (by decide))

theorem isDigit_digitByte (h : c.isDigit = true) : Scan.isDigit (digitByte c) = true := by
  have hvalue := toNat_digitByte h
  rw [Char.isDigit_iff_toNat] at h
  rw [Scan.isDigit, Bool.and_eq_true, decide_eq_true_iff, decide_eq_true_iff,
    UInt8.le_iff_toNat_le, UInt8.le_iff_toNat_le, hvalue]
  exact h

theorem utf8_digits (h : ∀ c ∈ chars, c.isDigit = true) : utf8 chars = chars.map digitByte := by
  induction chars with
  | nil => rfl
  | cons c chars ih =>
      rw [List.forall_mem_cons] at h
      have hhigh : c.toNat ≤ 57 := (Char.isDigit_iff_toNat.1 h.1).2
      rw [utf8_cons, utf8EncodeChar_of_lt (by omega), ih h.2]
      rfl

/-- The bytes do not continue a number. -/
def EndsNumber (rest : List UInt8) : Prop :=
  ∀ byte ∈ rest.head?, Scan.isDigit byte = false ∧ byte ≠ 46 ∧ byte ≠ 101 ∧ byte ≠ 69

/-- A scan takes all digits. -/
theorem digits_append (h : ∀ c ∈ chars, c.isDigit = true) (ends : EndsNumber rest) :
    Scan.digits (utf8 chars ++ rest) = (chars.map digitValue, rest) := by
  have hdigits : ∀ byte ∈ chars.map digitByte, Scan.isDigit byte = true := by
    simp only [List.mem_map]
    rintro byte ⟨c, hc, rfl⟩
    exact isDigit_digitByte (h c hc)
  have hvalues : (chars.map digitByte).map (fun byte => byte.toNat - 48) = chars.map digitValue := by
    rw [List.map_map]
    exact List.map_congr_left fun c hc => by
      rw [Function.comp, toNat_digitByte (h c hc)]
      rfl
  have hrest : rest.takeWhile Scan.isDigit = [] ∧ rest.dropWhile Scan.isDigit = rest := by
    cases rest with
    | nil => exact ⟨rfl, rfl⟩
    | cons byte rest =>
        have hbyte := (ends byte rfl).1
        simp [hbyte]
  rw [Scan.digits, utf8_digits h, List.takeWhile_append_of_pos hdigits,
    List.dropWhile_append_of_pos hdigits, hrest.1, hrest.2, List.append_nil, hvalues]

theorem isDigit_of_mem_toDigits : ∀ c ∈ Nat.toDigits 10 n, c.isDigit = true :=
  fun _ => Nat.isDigit_of_mem_toDigits (by decide) (by decide)

/-- The digits of a number start with a zero only if there is no other. -/
theorem toDigits_eq_cons (h : 0 < n) : ∃ c chars, Nat.toDigits 10 n = c :: chars ∧ c ≠ '0' := by
  induction n using Nat.strongRecOn with
  | ind n ih =>
      rw [Nat.toDigits_eq_if (by decide)]
      split
      · next hsmall =>
          refine ⟨n.digitChar, [], rfl, ?_⟩
          interval_cases n <;> decide
      · next hlarge =>
          rcases ih (n / 10) (by omega) (by omega) with ⟨c, chars, hdigits, hc⟩
          exact ⟨c, _, by rw [hdigits]; rfl, hc⟩

/-! ## Numbers -/

/-- A natural number as it is written. -/
def Numeral.ofNat (n : Nat) : Numeral := ⟨false, (Nat.toDigits 10 n).map digitValue, none, none⟩

theorem integer_ofNat (n : Nat) : integer n = Nat.toDigits 10 n := by
  simp [integer, toString, Int.repr, Nat.repr]

theorem wholePart_toDigits (n : Nat) (ends : EndsNumber rest) :
    Scan.wholePart (utf8 (Nat.toDigits 10 n) ++ rest) =
      some ((Nat.toDigits 10 n).map digitValue, rest) := by
  rcases Nat.eq_zero_or_pos n with rfl | hpos
  -- A zero is taken alone, and what ends the number is no further digit.
  · rw [Nat.toDigits_zero]
    change Scan.wholePart (48 :: rest) = some ([0], rest)
    cases rest with
    | nil => rfl
    | cons byte rest => simp [Scan.wholePart, (ends byte rfl).1]
  -- Any other number has a digit in front that is no zero.
  · rcases toDigits_eq_cons hpos with ⟨c, chars, hdigits, hc⟩
    have hdigit : ∀ d ∈ c :: chars, d.isDigit = true := hdigits ▸ isDigit_of_mem_toDigits
    have hscan := digits_append hdigit ends
    have hfront : digitByte c ≠ 48 := fun hzero => hc (Char.toNat_inj.1
      ((toNat_digitByte (List.forall_mem_cons.1 hdigit).1).symm.trans (congrArg UInt8.toNat hzero)))
    rw [utf8_digits hdigit] at hscan
    rw [hdigits, utf8_digits hdigit, List.map_cons, List.cons_append, Scan.wholePart]
    · rw [← List.cons_append, ← List.map_cons, Scan.someDigits, hscan]
      rfl
    · exact fun _ heq => absurd (List.cons.inj heq).1 hfront

theorem fractionPart_of_ends (ends : EndsNumber rest) :
    Scan.fractionPart rest = some (none, rest) := by
  cases rest with
  | nil => rfl
  | cons byte rest =>
      rw [Scan.fractionPart]
      exact fun _ heq => absurd (List.cons.inj heq).1 (ends byte rfl).2.1

theorem exponentPart_of_ends (ends : EndsNumber rest) :
    Scan.exponentPart rest = some (none, rest) := by
  cases rest with
  | nil => rfl
  | cons byte rest =>
      have hnone : ¬(byte = 101 ∨ byte = 69) := not_or.2 (ends byte rfl).2.2
      exact if_neg hnone

/-- The first byte of a number is a digit. -/
theorem utf8_integer_eq_cons (n : Nat) :
    ∃ byte bytes, utf8 (integer n) = byte :: bytes ∧ Scan.isDigit byte = true := by
  rw [integer_ofNat, utf8_digits isDigit_of_mem_toDigits]
  cases hdigits : Nat.toDigits 10 n with
  | nil => exact absurd hdigits Nat.toDigits_ne_nil
  | cons c chars =>
      have hc : c ∈ Nat.toDigits 10 n := by simp [hdigits]
      exact ⟨digitByte c, chars.map digitByte, rfl, isDigit_digitByte (isDigit_of_mem_toDigits c hc)⟩

theorem numeral_integer (n : Nat) (ends : EndsNumber rest) :
    Scan.numeral (utf8 (integer n) ++ rest) = some (.ofNat n, rest) := by
  have hparts := wholePart_toDigits n ends
  rcases utf8_integer_eq_cons n with ⟨byte, bytes, hfront, hdigit⟩
  have hunsigned : ∀ tail, utf8 (integer n) ++ rest ≠ 45 :: tail := by
    rintro tail heq
    rw [hfront, List.cons_append, List.cons.injEq] at heq
    rw [heq.1] at hdigit
    cases hdigit
  rw [Scan.numeral]
  · rw [integer_ofNat, hparts]
    simp [fractionPart_of_ends ends, exponentPart_of_ends ends, Numeral.ofNat]
  · exact hunsigned

theorem integer?_ofNat (n : Nat) : (Numeral.ofNat n).integer? = some n := by
  have hvalue : Numeral.ofDigits ((Nat.toDigits 10 n).map digitValue) = n := by
    rw [Numeral.ofDigits, List.foldl_map]
    exact Nat.ofDigitChars_toDigits (by decide) (by decide)
  simp [Numeral.integer?, Numeral.ofNat, hvalue]

end VoxelSchematic.Json
