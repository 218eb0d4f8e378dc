import Mathlib

/-!
# Bytes of texts

`utf8` is the list of the bytes of characters. The bytes of a text are those of its characters, and
a text is read from exactly these bytes. A character from `128` on has no byte below `128`.
-/

namespace VoxelSchematic.Text

def utf8 (chars : List Char) : List UInt8 := chars.flatMap String.utf8EncodeChar

@[simp] theorem utf8_nil : utf8 [] = [] := rfl

theorem utf8_cons (c : Char) (chars : List Char) :
    utf8 (c :: chars) = String.utf8EncodeChar c ++ utf8 chars := rfl

theorem utf8_append (front back : List Char) : utf8 (front ++ back) = utf8 front ++ utf8 back :=
  List.flatMap_append

theorem toList_toUTF8 (text : String) : text.toUTF8.data.toList = utf8 text.toList := by
  have hbytes : text.toUTF8 = (utf8 text.toList).toByteArray := by
    rw [String.toUTF8, ← String.ofList_toList (s := text), String.toByteArray_ofList,
      String.toList_ofList]
    rfl
  rw [hbytes, List.data_toByteArray]

theorem fromUTF8?_eq_some_iff {encoded : List UInt8} {s : String} :
    String.fromUTF8? ⟨encoded.toArray⟩ = some s ↔ s.toUTF8.data.toList = encoded := by
  unfold String.fromUTF8?
  constructor
  · intro h
    split at h
    · cases h
      rfl
    · cases h
  · rintro rfl
    have hvalid : (⟨s.toUTF8.data.toList.toArray⟩ : ByteArray).IsValidUTF8 := s.isValidUTF8
    rw [dif_pos hvalid]
    rfl

variable {c : Char} {byte : UInt8}

/-- A character below `128` is its only byte. -/
theorem utf8EncodeChar_of_lt (h : c.toNat < 128) :
    String.utf8EncodeChar c = [UInt8.ofNat c.toNat] :=
  if_pos (Nat.le_of_lt_succ h)

theorem le_of_mem_utf8EncodeChar (h : 128 ≤ c.toNat) (hbyte : byte ∈ String.utf8EncodeChar c) :
    128 ≤ byte := by
  have hmarked : ∀ n, 128 ≤ n → n < 256 → 128 ≤ UInt8.ofNat n := fun n hlow hhigh => by
    rw [UInt8.le_iff_toNat_le, UInt8.toNat_ofNat_of_lt' hhigh]
    exact hlow
  have hlarge : ¬c.val.toNat ≤ 127 := Nat.not_le.2 h
  unfold String.utf8EncodeChar at hbyte
  simp only [hlarge, if_false] at hbyte
  -- Each byte has a mark in its first bit, and what is added to the mark leaves it there.
  split at hbyte
  · simp only [List.mem_cons, List.not_mem_nil, or_false] at hbyte
    rcases hbyte with rfl | rfl <;> exact hmarked _ (by omega) (by omega)
  · split at hbyte
    · simp only [List.mem_cons, List.not_mem_nil, or_false] at hbyte
      rcases hbyte with rfl | rfl | rfl <;> exact hmarked _ (by omega) (by omega)
    · simp only [List.mem_cons, List.not_mem_nil, or_false] at hbyte
      rcases hbyte with rfl | rfl | rfl | rfl <;> exact hmarked _ (by omega) (by omega)

end VoxelSchematic.Text
