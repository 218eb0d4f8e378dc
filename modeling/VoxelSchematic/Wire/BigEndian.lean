/-!
# Big-endian numbers

Fixed-width numbers with the most significant byte first. `encode` keeps the low bytes of a
number that is too wide; `decode` reads any number of bytes.
-/

namespace VoxelSchematic.BigEndian

def decode (bytes : List UInt8) : Nat :=
  bytes.foldl (fun value byte => value * 256 + byte.toNat) 0

/-- The `width` low bytes of `n`. -/
def encode : Nat → Nat → List UInt8
  | 0, _ => []
  | width + 1, n => encode width (n / 256) ++ [UInt8.ofNat n]

theorem length_encode (width n : Nat) : (encode width n).length = width := by
  induction width generalizing n with
  | zero => rfl
  | succ width ih => simp [encode, ih]

theorem decode_append_singleton (bytes : List UInt8) (last : UInt8) :
    decode (bytes ++ [last]) = decode bytes * 256 + last.toNat := by
  simp [decode]

/-- Reading what was written gives the number modulo the width. -/
theorem decode_encode (width n : Nat) : decode (encode width n) = n % Nat.pow 256 width := by
  induction width generalizing n with
  | zero => simp [encode, decode, Nat.mod_one]
  | succ width ih =>
      have last : (UInt8.ofNat n).toNat = n % 256 := by simp
      have weight : Nat.pow 256 (width + 1) = 256 * Nat.pow 256 width := Nat.mul_comm _ _
      rw [encode, decode_append_singleton, ih, last, weight, Nat.mod_mul]
      omega

theorem decode_lt (bytes : List UInt8) : decode bytes < Nat.pow 256 bytes.length := by
  rw [← List.reverse_reverse bytes]
  induction bytes.reverse with
  | nil => simp [decode]
  | cons last rest ih =>
      have weight : Nat.pow 256 (rest.length + 1) = Nat.pow 256 rest.length * 256 := rfl
      have small : last.toNat < 256 := last.toNat_lt
      simp only [List.reverse_cons, decode_append_singleton, List.length_append,
        List.length_reverse, List.length_cons, List.length_nil] at ih ⊢
      rw [weight]
      omega

/-- Writing what was read gives the bytes back. -/
theorem encode_decode (bytes : List UInt8) : encode bytes.length (decode bytes) = bytes := by
  rw [← List.reverse_reverse bytes]
  induction bytes.reverse with
  | nil => rfl
  | cons last rest ih =>
      have small : last.toNat < 256 := last.toNat_lt
      have high : (decode rest.reverse * 256 + last.toNat) / 256 = decode rest.reverse := by omega
      have low : UInt8.ofNat (decode rest.reverse * 256 + last.toNat) = last := by
        apply UInt8.toNat_inj.1
        rw [UInt8.toNat_ofNat']
        omega
      simp only [List.reverse_cons, decode_append_singleton, List.length_append,
        List.length_reverse, List.length_cons, List.length_nil, encode] at ih ⊢
      rw [high, low, ih]

end VoxelSchematic.BigEndian
