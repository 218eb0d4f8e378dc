import VoxelSchematic.Proofs.Schematic.Planes

/-!
# Planes as arrays of four-bit values

Two neighbours share a byte. Writing one of them leaves the other alone, whatever the byte and the
value, so a plane holds under every index what was last written there.
-/

namespace VoxelSchematic.NibblePlane

variable {plane : Array UInt8} {i j : Nat} {writes : List (Nat × UInt8)}

/-! ## The halves of a byte -/

theorem high_mask_getElem (k : Nat) (hk : k < 8) : (0xF0#8)[k] = decide (4 ≤ k) := by
  revert k
  decide

/-- Of the written value the low half counts, and nothing of the old byte is left in its place. -/
theorem half_withHalf_of_same (h : i % 2 = j % 2) (value byte : UInt8) :
    half j (withHalf i value byte) = value &&& 0x0F := by
  rcases Nat.mod_two_eq_zero_or_one i with heven | hodd
  · rw [half_of_even (h ▸ heven), withHalf, if_pos heven]
    apply UInt8.toBitVec_inj.1
    apply BitVec.eq_of_getElem_eq
    intro k hk
    by_cases hlow : k < 4
    · simp [mask_getElem k hk, high_mask_getElem k hk, hlow]
    · simp [mask_getElem k hk, hlow]
  · have hhigh : withHalf i value byte = withHalf 1 value byte := by simp [withHalf, hodd]
    rw [half_of_odd (h ▸ hodd), hhigh]
    exact high_withHalf_one value byte

/-- A byte keeps the half in which the written index does not lie. -/
theorem half_withHalf_of_ne (h : i % 2 ≠ j % 2) (value byte : UInt8) :
    half j (withHalf i value byte) = half j byte := by
  rcases Nat.mod_two_eq_zero_or_one i with heven | hodd
  · have hj : j % 2 = 1 := by omega
    rw [half_of_odd hj, half_of_odd hj, withHalf, if_pos heven]
    apply UInt8.toBitVec_inj.1
    apply BitVec.eq_of_getElem_eq
    intro k hk
    by_cases hlow : k < 4
    · have hlt : 4 + k < 8 := Nat.add_lt_add_left hlow 4
      simp [hlt, mask_getElem (4 + k) hlt, high_mask_getElem (4 + k) hlt]
    · have hge : ¬4 + k < 8 := fun hlt => hlow (Nat.lt_of_add_lt_add_left hlt)
      simp [BitVec.getLsbD_of_ge _ (4 + k) (Nat.not_lt.1 hge)]
  · have hj : j % 2 = 0 := by omega
    have hhigh : withHalf i value byte = withHalf 1 value byte := by simp [withHalf, hodd]
    rw [half_of_even hj, half_of_even hj, hhigh]
    apply UInt8.toBitVec_inj.1
    apply BitVec.eq_of_getElem_eq
    intro k hk
    by_cases hlow : k < 4
    · simp [withHalf, mask_getElem k hk, hlow]
    · simp [withHalf, mask_getElem k hk, hlow]

/-- A byte is its two halves. -/
theorem eq_of_half {a b : UInt8} (hlow : half 0 a = half 0 b) (hhigh : half 1 a = half 1 b) :
    a = b := by
  have hmod : a.toNat % 16 = b.toNat % 16 := by simpa [toNat_half] using congrArg UInt8.toNat hlow
  have hdiv : a.toNat / 16 = b.toNat / 16 := by simpa [toNat_half] using congrArg UInt8.toNat hhigh
  apply UInt8.toNat_inj.1
  omega

theorem get?_eq_none (h : ¬j / 2 < plane.size) : get? plane j = none := by
  rwa [← isSome_get?_iff, Option.not_isSome_iff_eq_none] at h

theorem get?_set (plane : Array UInt8) (i j : Nat) (value : UInt8) :
    get? (set plane i value) j =
      if j = i ∧ i / 2 < plane.size then some (value &&& 0x0F) else get? plane j := by
  unfold get? set
  rw [Array.getElem?_modify]
  -- Another byte is not touched; in the same byte the parity tells the index from its neighbour.
  by_cases hbyte : i / 2 = j / 2
  · by_cases hparity : i % 2 = j % 2
    · have hij : j = i := by omega
      subst hij
      by_cases hin : j / 2 < plane.size
      · simp [hin, half_withHalf_of_same]
      · simp [hin]
    · have hij : j ≠ i := fun h => hparity (h ▸ rfl)
      simp [hbyte, hij, Function.comp_def, half_withHalf_of_ne hparity]
  · have hij : j ≠ i := fun h => hbyte (h ▸ rfl)
    simp [hbyte, hij]

/-- Planes with the same values are the same. -/
theorem eq_of_get? {a b : Array UInt8} (hsize : a.size = b.size)
    (h : ∀ j, get? a j = get? b j) : a = b := by
  refine Array.ext hsize fun k ha hb => ?_
  have hhalf (i : Nat) (hi : i < 2) : half i a[k] = half i b[k] := by
    have hk : (2 * k + i) / 2 = k := by omega
    have hvalue := h (2 * k + i)
    simpa [get?, half, hk, ha, hb, Nat.add_mod] using hvalue
  exact eq_of_half (hhalf 0 (by decide)) (hhalf 1 (by decide))

/-! ## Any number of writes -/

/-- What becomes of a plane by writes, each an index and a value, in their order. -/
def setAll (plane : Array UInt8) (writes : List (Nat × UInt8)) : Array UInt8 :=
  writes.foldl (fun plane write => set plane write.1 write.2) plane

theorem setAll_append (plane : Array UInt8) (before behind : List (Nat × UInt8)) :
    setAll plane (before ++ behind) = setAll (setAll plane before) behind :=
  List.foldl_append

theorem size_setAll (plane : Array UInt8) (writes : List (Nat × UInt8)) :
    (setAll plane writes).size = plane.size := by
  induction writes generalizing plane with
  | nil => rfl
  | cons write writes ih => exact (ih _).trans (size_set write.2)

theorem get?_setAll_of_unwritten (plane : Array UInt8) (h : ∀ write ∈ writes, write.1 ≠ j) :
    get? (setAll plane writes) j = get? plane j := by
  induction writes generalizing plane with
  | nil => rfl
  | cons write writes ih =>
      have hne : j ≠ write.1 := (h write List.mem_cons_self).symm
      calc get? (setAll (set plane write.1 write.2) writes) j
          = get? (set plane write.1 write.2) j :=
            ih _ fun later hlater => h later (List.mem_cons_of_mem _ hlater)
        _ = get? plane j := by simp [get?_set, hne]

/-- Later writes elsewhere do not reach the value. -/
theorem get?_setAll_of_last {before behind : List (Nat × UInt8)} (value : UInt8)
    (hin : j / 2 < plane.size) (hlast : ∀ write ∈ behind, write.1 ≠ j) :
    get? (setAll plane (before ++ (j, value) :: behind)) j = some (value &&& 0x0F) := by
  have hin' : j / 2 < (setAll plane before).size := by rwa [size_setAll]
  calc get? (setAll plane (before ++ (j, value) :: behind)) j
      = get? (setAll (set (setAll plane before) j value) behind) j := by
        rw [setAll_append]
        rfl
    _ = get? (set (setAll plane before) j value) j := get?_setAll_of_unwritten _ hlast
    _ = some (value &&& 0x0F) := by rw [get?_set, if_pos ⟨rfl, hin'⟩]

/-- Of the writes to an index one is the last. -/
theorem exists_last_write (h : ¬∀ write ∈ writes, write.1 ≠ j) :
    ∃ before value behind, writes = before ++ (j, value) :: behind ∧
      ∀ write ∈ behind, write.1 ≠ j := by
  induction writes with
  | nil => simp at h
  | cons write writes ih =>
      by_cases hlater : ∀ later ∈ writes, later.1 ≠ j
      · have hj : write.1 = j := by
          by_contra hne
          exact h (List.forall_mem_cons.2 ⟨hne, hlater⟩)
        subst hj
        exact ⟨[], write.2, writes, rfl, hlater⟩
      · obtain ⟨before, value, behind, rfl, hlast⟩ := ih hlater
        exact ⟨write :: before, value, behind, rfl, hlast⟩

/-! ## Planes of zeros -/

/-- One byte more than the pairs need has room for one index more. -/
theorem get?_zeros (volume i : Nat) :
    get? (zeros volume) i = if i / 2 < (zeros volume).size then some 0 else none := by
  have hzero : half i 0 = 0 := by
    apply UInt8.toNat_inj.1
    simp [toNat_half]
  by_cases hin : i / 2 < (sizeFor volume.toUInt64).toNat
  · simp [get?, zeros, hin, hzero]
  · simp [get?, zeros, hin]

/-- Filling a plane of zeros value by value, where a zero may be passed over, packs the values. -/
theorem setAll_zeros {values : Array UInt8} (hvolume : values.size < UInt64.size - 1)
    (hfrom : ∀ write ∈ writes, values[write.1]? = some write.2)
    (hall : ∀ i (hi : i < values.size), values[i] ≠ 0 → (i, values[i]) ∈ writes) :
    setAll (zeros values.size) writes = ofValues values := by
  have hsize : (zeros values.size).size = (values.size + 1) / 2 := size_zeros hvolume
  refine eq_of_get? (by rw [size_setAll, size_ofValues, hsize]) fun j => ?_
  by_cases hin : j / 2 < (values.size + 1) / 2
  · rw [get?_ofValues_of_div values hin]
    by_cases hnone : ∀ write ∈ writes, write.1 ≠ j
    · -- An index is passed over only if its value is zero, which the plane has there already.
      have hzero : values[j]?.getD 0 = 0 := by
        by_cases hj : j < values.size
        · rw [Array.getElem?_eq_getElem hj, Option.getD_some]
          by_contra hne
          exact hnone _ (hall j hj hne) rfl
        · rw [Array.getElem?_eq_none (Nat.le_of_not_lt hj), Option.getD_none]
      rw [get?_setAll_of_unwritten _ hnone, get?_zeros, if_pos (by rwa [hsize]), hzero]
      rfl
    · obtain ⟨before, value, behind, rfl, hlast⟩ := exists_last_write hnone
      have hvalue : values[j]? = some value := hfrom (j, value) (by simp)
      rw [get?_setAll_of_last value (by rwa [hsize]) hlast, hvalue]
      rfl
  · rw [get?_eq_none (by rwa [size_setAll, hsize]), get?_eq_none (by rwa [size_ofValues])]

/-! ## A plane as an array -/

end VoxelSchematic.NibblePlane
