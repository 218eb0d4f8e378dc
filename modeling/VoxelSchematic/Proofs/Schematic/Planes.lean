import Mathlib
import VoxelSchematic.Schematic.Decoded
import VoxelSchematic.Schematic.Encoded

/-!
# Numbers spread over planes

`Clipboard.planes` is what a schematic comes to hold of the numbers in a clipboard. Put together
again, they give back every data value and the stored bits of every block number, also where a
plane for high bits was not worth writing.
-/

namespace VoxelSchematic

namespace NibblePlane

theorem half_of_even {i : Nat} (h : i % 2 = 0) (byte : UInt8) : half i byte = byte &&& 0x0F :=
  if_pos h

theorem half_of_odd {i : Nat} (h : i % 2 = 1) (byte : UInt8) : half i byte = byte >>> 4 :=
  if_neg (by rw [h]; exact one_ne_zero)

theorem toNat_half (i : Nat) (byte : UInt8) :
    (half i byte).toNat = if i % 2 = 0 then byte.toNat % 16 else byte.toNat / 16 := by
  unfold half
  split
  · rw [UInt8.toNat_and]
    exact Nat.and_two_pow_sub_one_eq_mod _ 4
  · rw [UInt8.toNat_shiftRight]
    exact Nat.shiftRight_eq_div_pow _ 4

theorem mask_getElem (i : Nat) (hi : i < 8) : (0x0F#8)[i] = decide (i < 4) := by
  revert i
  decide

/-- Writing the high half leaves the low one. -/
theorem low_withHalf_one (low high : UInt8) :
    withHalf 1 high (withHalf 0 low 0) &&& 0x0F = low &&& 0x0F := by
  apply UInt8.toBitVec_inj.1
  apply BitVec.eq_of_getElem_eq
  intro i hi
  by_cases h : i < 4
  · simp [withHalf, mask_getElem i hi, h]
  · simp [withHalf, mask_getElem i hi, h]

theorem high_withHalf_one (high byte : UInt8) : withHalf 1 high byte >>> 4 = high &&& 0x0F := by
  apply UInt8.toBitVec_inj.1
  apply BitVec.eq_of_getElem_eq
  intro i hi
  by_cases h : i < 4
  · have hlt : 4 + i < 8 := Nat.add_lt_add_left h 4
    simp [withHalf, mask_getElem i hi, h, mask_getElem (4 + i) hlt, hlt]
  · have hge : ¬4 + i < 8 := fun hlt => h (Nat.lt_of_add_lt_add_left hlt)
    have hbyte : byte.toBitVec.getLsbD (4 + i) = false :=
      BitVec.getLsbD_of_ge byte.toBitVec (4 + i) (Nat.not_lt.1 hge)
    simp [withHalf, mask_getElem i hi, h, hge, hbyte]

/-- A plane holds the low half of each value under the number of the value, and zero in what is
left of the last byte. -/
theorem get?_ofValues_of_div (values : Array UInt8) {i : Nat}
    (hbyte : i / 2 < (values.size + 1) / 2) :
    get? (ofValues values) i = some (values[i]?.getD 0 &&& 0x0F) := by
  have hsplit : 2 * (i / 2) + i % 2 = i := Nat.div_add_mod i 2
  rw [get?, ofValues, Array.getElem?_ofFn, dif_pos hbyte, Option.map_some]
  -- The parity of the index says which half of the byte is its own.
  rcases Nat.mod_two_eq_zero_or_one i with heven | hodd
  · have hslot : 2 * (i / 2) = i := by rw [heven] at hsplit; exact hsplit
    rw [half_of_even heven, low_withHalf_one]
    simp only [hslot]
  · have hslot : 2 * (i / 2) + 1 = i := by rw [hodd] at hsplit; exact hsplit
    rw [half_of_odd hodd, high_withHalf_one]
    simp only [hslot]

theorem get?_ofValues (values : Array UInt8) {i : Nat} (hi : i < values.size) :
    get? (ofValues values) i = some (values[i] &&& 0x0F) := by
  have hbyte : i / 2 < (values.size + 1) / 2 := by omega
  rw [get?_ofValues_of_div values hbyte, Array.getElem?_eq_getElem hi, Option.getD_some]

theorem size_ofValues (values : Array UInt8) : (ofValues values).size = (values.size + 1) / 2 :=
  Array.size_ofFn

/-- The last byte may have room for one more value, which is zero. -/
theorem eq_zero_of_get?_ofValues {values : Array UInt8} {i : Nat} {bits : UInt8}
    (hi : values.size ≤ i) (h : get? (ofValues values) i = some bits) : bits = 0 := by
  have hbyte : i / 2 < (values.size + 1) / 2 := by
    rw [← size_ofValues]
    exact isSome_get?_iff.1 (h ▸ rfl)
  rw [get?_ofValues_of_div values hbyte, Array.getElem?_eq_none hi] at h
  exact (Option.some.inj h).symm

end NibblePlane

/-! ## Two bytes of a number -/

section

variable (v : UInt16)

theorem toNat_div_toUInt8 : (v.toNat / 256).toUInt8.toNat = v.toNat / 256 := by
  have hlt := v.toNat_lt
  simp only [Nat.toUInt8_eq, UInt8.toNat_ofNat']
  omega

theorem toNat_raised (byte : UInt8) : (byte.toUInt16 <<< 8).toNat = byte.toNat * 256 := by
  have hlt := byte.toNat_lt
  simp [Nat.shiftLeft_eq]
  omega

/-- The two parts have no bit in common, so that joining them is adding them. -/
theorem toNat_or_raised (low high : UInt8) :
    (low.toUInt16 ||| high.toUInt16 <<< 8).toNat = low.toNat + 256 * high.toNat := by
  rw [UInt16.toNat_or, toNat_raised, UInt8.toNat_toUInt16, Nat.or_comm, Nat.mul_comm, Nat.add_comm]
  exact (Nat.two_pow_add_eq_or_of_lt (i := 8) low.toNat_lt high.toNat).symm

/-- A number is its low byte beside its high one. -/
theorem join_bytes : v.toUInt8.toUInt16 ||| (v.toNat / 256).toUInt8.toUInt16 <<< 8 = v := by
  apply UInt16.toNat_inj.1
  rw [toNat_or_raised, toNat_div_toUInt8, UInt16.toNat_toUInt8]
  exact Nat.mod_add_div v.toNat 256

theorem toUInt16_toUInt8_of_high_eq_zero (h : (v.toNat / 256).toUInt8 = 0) :
    v.toUInt8.toUInt16 = v := by
  have hjoin := join_bytes v
  rw [h] at hjoin
  simpa using hjoin

end

/-! ## Numbers in planes -/

namespace Planes

variable {p : Planes} {i : Nat}

theorem withHighBits_eq (id : UInt16) (bits : UInt8) :
    withHighBits id bits = id.toUInt8.toUInt16 ||| bits.toUInt16 <<< 8 := by
  have hmask : id &&& 0x00FF = id.toUInt8.toUInt16 := by
    apply UInt16.toNat_inj.1
    rw [UInt16.toNat_and, UInt8.toNat_toUInt16, UInt16.toNat_toUInt8]
    exact Nat.and_two_pow_sub_one_eq_mod _ 8
  rw [withHighBits, hmask]

theorem toNat_withHighBits (id : UInt16) (bits : UInt8) :
    (withHighBits id bits).toNat = id.toNat % 256 + 256 * bits.toNat := by
  rw [withHighBits_eq, toNat_or_raised, UInt16.toNat_toUInt8]

/-- Of the planes that reach a cell, the last says what is above the low byte. -/
theorem toNat_blockId (p : Planes) (i : Nat) :
    (p.blockId i).toNat = (p.blocks[i]?.getD 0).toNat +
      256 * ((p.adds.reverse.findSome? fun plane => NibblePlane.get? plane i).getD 0).toNat := by
  rcases p with ⟨blocks, data, extra, adds⟩
  -- Each plane may replace what the earlier ones have put above the low byte.
  induction adds using List.reverseRecOn with
  | nil => simp [blockId]
  | append_singleton rest plane ih =>
      rw [List.reverse_append, List.reverse_singleton, List.singleton_append, List.findSome?_cons]
      cases hbits : NibblePlane.get? plane i with
      | none =>
          have hstep : blockId ⟨blocks, data, extra, rest ++ [plane]⟩ i =
              blockId ⟨blocks, data, extra, rest⟩ i := by simp [blockId, hbits]
          rw [hstep]
          exact ih
      | some bits =>
          have hstep : blockId ⟨blocks, data, extra, rest ++ [plane]⟩ i =
              withHighBits (blockId ⟨blocks, data, extra, rest⟩ i) bits := by simp [blockId, hbits]
          have hkept : (blockId ⟨blocks, data, extra, rest⟩ i).toNat % 256 =
              (blocks[i]?.getD 0).toNat := by
            rw [ih, Nat.add_mul_mod_self_left]
            exact Nat.mod_eq_of_lt (blocks[i]?.getD 0).toNat_lt
          rw [hstep, toNat_withHighBits, hkept, Option.getD_some]

theorem toNat_dataValue (p : Planes) (i : Nat) :
    (p.dataValue i).toNat = (p.data[i]?.getD 0).toNat +
      256 * ((p.extra.bind fun plane => plane[i]?).getD 0).toNat := by
  unfold dataValue
  cases p.extra.bind fun plane => plane[i]? with
  | none => simp
  | some high => exact toNat_or_raised _ _

end Planes

/-! ## Bytes of a cell -/

namespace Cell

variable (c : Cell)

theorem toNat_storedId : c.storedId.toNat = c.id.toNat % 4096 := by
  rw [storedId, UInt16.toNat_and]
  exact Nat.and_two_pow_sub_one_eq_mod _ 12

theorem storedId_toNat_lt : c.storedId.toNat < 4096 := by
  rw [toNat_storedId]
  exact Nat.mod_lt _ (by decide)

theorem toNat_lowId : c.storedId.toUInt8.toNat = c.id.toNat % 256 := by
  rw [UInt16.toNat_toUInt8, toNat_storedId]
  omega

theorem toNat_highId : c.highId.toNat = c.id.toNat % 4096 / 256 := by
  rw [highId, toNat_div_toUInt8, toNat_storedId]

theorem toNat_lowData : c.data.toUInt8.toNat = c.data.toNat % 256 := UInt16.toNat_toUInt8 _

theorem toNat_highData : c.highData.toNat = c.data.toNat / 256 := toNat_div_toUInt8 c.data

/-- The stored number has no bits beyond the nibble. -/
theorem highId_and : c.highId &&& 0x0F = c.highId := by
  apply UInt8.toNat_inj.1
  rw [UInt8.toNat_and]
  refine (Nat.and_two_pow_sub_one_eq_mod _ 4).trans (Nat.mod_eq_of_lt ?_)
  rw [toNat_highId]
  omega

end Cell

/-! ## The planes of a clipboard -/

namespace Clipboard

/-- A plane that is written only if some of its values are not zero. -/
def neededPlane? (values : Array UInt8) (pack : Array UInt8 → Array UInt8) : Option (Array UInt8) :=
  if values.any (· != 0) then some (pack values) else none

/-- The numbers of a clipboard as a schematic holds them. -/
def planes (c : Clipboard) : Planes where
  blocks := c.cells.map fun cell => cell.storedId.toUInt8
  data := c.cells.map fun cell => cell.data.toUInt8
  extra := neededPlane? (c.cells.map Cell.highData) id
  adds := (neededPlane? (c.cells.map Cell.highId) NibblePlane.ofValues).toList

variable {c : Clipboard} {i : Nat}

/-- A plane that is not written has zeros only. -/
theorem neededPlane?_cases (f : Cell → UInt8) (pack : Array UInt8 → Array UInt8) :
    neededPlane? (c.cells.map f) pack = some (pack (c.cells.map f)) ∨
      neededPlane? (c.cells.map f) pack = none ∧ ∀ i (hi : i < c.cells.size), f c.cells[i] = 0 := by
  unfold neededPlane?
  cases hneeded : (c.cells.map f).any (· != 0) with
  | true => exact .inl (if_pos rfl)
  | false =>
      refine .inr ⟨if_neg Bool.false_ne_true, fun i hi => ?_⟩
      have hzero := Array.any_eq_false.1 hneeded i (by rwa [Array.size_map])
      simpa using hzero

/-- A plane is written where some cell has something to put in it. -/
theorem isSome_neededPlane?_iff (f : Cell → UInt8) (pack : Array UInt8 → Array UInt8) :
    (neededPlane? (c.cells.map f) pack).isSome = true ↔ ∃ cell ∈ c.cells, f cell ≠ 0 := by
  have hany : (c.cells.map f).any (· != 0) = true ↔ ∃ cell ∈ c.cells, f cell ≠ 0 := by
    rw [Array.any_map, Array.any_eq_true']
    simp
  unfold neededPlane?
  rw [← hany]
  cases (c.cells.map f).any (· != 0) with
  | true => simp
  | false => simp

theorem blockId_planes (hi : i < c.cells.size) : c.planes.blockId i = c.cells[i].storedId := by
  have hblocks : c.planes.blocks[i]? = some c.cells[i].storedId.toUInt8 := by simp [planes, hi]
  rw [Planes.blockId, hblocks, Option.getD_some]
  -- Either the high bits come from the plane, or none was written because all of them are zero.
  rcases neededPlane?_cases (c := c) Cell.highId NibblePlane.ofValues with hsome | ⟨hnone, hzero⟩
  · have hplane : NibblePlane.get? (NibblePlane.ofValues (c.cells.map Cell.highId)) i =
        some c.cells[i].highId := by
      rw [NibblePlane.get?_ofValues _ (by rwa [Array.size_map]), Array.getElem_map, Cell.highId_and]
    have hadds : c.planes.adds = [NibblePlane.ofValues (c.cells.map Cell.highId)] :=
      congrArg Option.toList hsome
    rw [hadds, List.foldl_cons, List.foldl_nil, hplane]
    refine (Planes.withHighBits_eq _ _).trans ?_
    rw [UInt8.toUInt8_toUInt16]
    exact join_bytes _
  · have hadds : c.planes.adds = [] := congrArg Option.toList hnone
    rw [hadds, List.foldl_nil]
    exact toUInt16_toUInt8_of_high_eq_zero _ (hzero i hi)

theorem dataValue_planes (hi : i < c.cells.size) : c.planes.dataValue i = c.cells[i].data := by
  have hdata : c.planes.data[i]? = some c.cells[i].data.toUInt8 := by simp [planes, hi]
  rw [Planes.dataValue, hdata, Option.getD_some]
  rcases neededPlane?_cases (c := c) Cell.highData id with hsome | ⟨hnone, hzero⟩
  · have hextra : c.planes.extra = some (c.cells.map Cell.highData) := hsome
    have hhigh : (c.cells.map Cell.highData)[i]? = some c.cells[i].highData := by simp [hi]
    rw [hextra, Option.bind_some, hhigh]
    exact join_bytes _
  · have hextra : c.planes.extra = none := hnone
    rw [hextra, Option.bind_none]
    exact toUInt16_toUInt8_of_high_eq_zero _ (hzero i hi)

end Clipboard

end VoxelSchematic
