import Mathlib
import VoxelSchematic.Schematic.Field
import VoxelSchematic.Space.Region

/-!
# Positions of cells

In a region whose sides a coordinate can span, each cell has a position of its own, and the number
of that position is the number of the cell, wherever the region lies. In the other direction the
sides do not matter: a position that has a number is the position of that cell.

* `Region.Spanned` says that the sides are that short. `Region.Small` says that they fit into sixteen
  bits, as those of a schematic have to.
-/

namespace VoxelSchematic

namespace BlockPos

variable {p q : BlockPos}

theorem eq_iff : p = q ↔ p.x = q.x ∧ p.y = q.y ∧ p.z = q.z := by
  rcases p with ⟨px, py, pz⟩
  rcases q with ⟨qx, qy, qz⟩
  simp

theorem zero_add (p : BlockPos) : zero + p = p :=
  eq_iff.2 ⟨Int32.zero_add _, Int32.zero_add _, Int32.zero_add _⟩

/-- Differences undo sums, also where these wrap. -/
theorem add_sub_cancel_left (p q : BlockPos) : p + q - p = q := by
  have hcoordinate : ∀ a b : Int32, a + b - a = b := fun a b => by
    rw [Int32.add_comm, Int32.add_sub_cancel]
  exact eq_iff.2 ⟨hcoordinate _ _, hcoordinate _ _, hcoordinate _ _⟩

theorem sub_sub_cancel (p q : BlockPos) : p - (p - q) = q := by
  have hcoordinate : ∀ a b : Int32, a - (a - b) = b := fun a b => by
    rw [Int32.sub_eq_add_neg a (a - b), Int32.neg_sub, Int32.add_comm, Int32.sub_add_cancel]
  exact eq_iff.2 ⟨hcoordinate _ _, hcoordinate _ _, hcoordinate _ _⟩

theorem add_sub_cancel (p q : BlockPos) : p + (q - p) = q := by
  have hcoordinate : ∀ a b : Int32, a + (b - a) = b := fun a b => by
    rw [Int32.add_comm, Int32.sub_add_cancel]
  exact eq_iff.2 ⟨hcoordinate _ _, hcoordinate _ _, hcoordinate _ _⟩

/-- Of the things that are put at one position, the last stays. -/
theorem getElem?_foldl_insert {α β : Type} (place : α → BlockPos) (value : α → β) (things : List α)
    (p : BlockPos) :
    (things.foldl (fun placed thing => placed.insert (place thing) (value thing))
        (∅ : Std.HashMap BlockPos β))[p]? =
      (things.reverse.find? fun thing => place thing == p).map value := by
  induction things using List.reverseRecOn with
  | nil => exact Std.HashMap.getElem?_empty
  | append_singleton rest thing ih =>
      rw [List.foldl_append, List.foldl_cons, List.foldl_nil, Std.HashMap.getElem?_insert, ih,
        List.reverse_append, List.reverse_singleton, List.singleton_append, List.find?_cons]
      cases hplace : place thing == p with
      | true => rfl
      | false => rfl

end BlockPos

namespace Region

open Schematic

/-- No side is longer than a coordinate can tell. -/
structure Spanned (r : Region) : Prop where
  width : r.width.toNat < 2 ^ 31
  height : r.height.toNat < 2 ^ 31
  length : r.length.toNat < 2 ^ 31

/-- No side is longer than a schematic can tell. -/
def Small (r : Region) : Prop :=
  r.width.toNat ≤ maxSide ∧ r.height.toNat ≤ maxSide ∧ r.length.toNat ≤ maxSide

instance (r : Region) : Decidable r.Small := inferInstanceAs (Decidable (_ ∧ _ ∧ _))

variable {r : Region} {i j : Nat}

theorem Small.spanned (small : r.Small) : r.Spanned := by
  rcases small with ⟨hwidth, hheight, hlength⟩
  unfold maxSide at hwidth hheight hlength
  constructor
  · omega
  · omega
  · omega

theorem offset?_ofNat {n : Nat} {size : UInt32} (hn : n < size.toNat)
    (hsize : size.toNat < 2 ^ 31) : offset? (.ofNat n) size = some n := by
  have hvalue : (Int32.ofNat n).toInt = n := Int32.toInt_ofNat_of_lt (hn.trans hsize)
  rw [offset?, hvalue]
  simp [hn]

/-- The three coordinates of a cell are within the sides. -/
theorem coordinates_lt (hi : i < r.volume) :
    i % r.width.toNat < r.width.toNat ∧
      i / (r.width.toNat * r.length.toNat) < r.height.toNat ∧
      i % (r.width.toNat * r.length.toNat) / r.width.toNat < r.length.toNat := by
  have hvolume : i < r.width.toNat * r.length.toNat * r.height.toNat := by
    rw [Nat.mul_right_comm]
    exact hi
  have hlayer : 0 < r.width.toNat * r.length.toNat :=
    Nat.pos_of_ne_zero fun hzero => by simp [hzero] at hvolume
  refine ⟨Nat.mod_lt i (Nat.pos_of_mul_pos_right hlayer), Nat.div_lt_of_lt_mul hvolume, ?_⟩
  exact Nat.div_lt_of_lt_mul (Nat.mod_lt i hlayer)

theorem relativePosition_eq (hi : i < r.volume) :
    r.relativePosition i = ⟨.ofNat (i % r.width.toNat),
      .ofNat (i / (r.width.toNat * r.length.toNat)),
      .ofNat (i % (r.width.toNat * r.length.toNat) / r.width.toNat)⟩ := by
  rcases coordinates_lt hi with ⟨hx, -, hz⟩
  have hwidth : Nat.max r.width.toNat 1 = r.width.toNat := Nat.max_eq_left (Nat.zero_lt_of_lt hx)
  have hlength : Nat.max r.length.toNat 1 = r.length.toNat := Nat.max_eq_left (Nat.zero_lt_of_lt hz)
  simp only [relativePosition, hwidth, hlength]

/-- A cell is counted by its layer, its row and its place in the row. -/
theorem count_eq (width length i : Nat) :
    i / (width * length) * width * length + i % (width * length) / width * width + i % width = i := by
  -- The place within the row is the same whether or not whole layers are taken off first.
  have hrow : i % (width * length) % width = i % width := Nat.mod_mul_right_mod i width length
  calc i / (width * length) * width * length + i % (width * length) / width * width + i % width
      = width * length * (i / (width * length)) +
          (width * (i % (width * length) / width) + i % (width * length) % width) := by
        rw [hrow]
        ring
    _ = i := by rw [Nat.div_add_mod, Nat.div_add_mod]

/-- The number of the position of a cell is the number of the cell. -/
theorem indexOf?_position (spanned : r.Spanned) (hi : i < r.volume) :
    r.indexOf? (r.position i) = some i := by
  rcases spanned with ⟨hwidth, hheight, hlength⟩
  rcases coordinates_lt hi with ⟨hx, hy, hz⟩
  have hrelative : r.position i - r.min = r.relativePosition i :=
    BlockPos.add_sub_cancel_left r.min (r.relativePosition i)
  rw [indexOf?, hrelative, relativePosition_eq hi]
  simp only [offset?_ofNat hx hwidth, offset?_ofNat hy hheight, offset?_ofNat hz hlength,
    Option.bind_eq_bind, Option.bind_some, Option.pure_def, count_eq]

theorem contains_relativePosition (spanned : r.Spanned) (hi : i < r.volume) :
    ({ r with min := .zero } : Region).contains (r.relativePosition i) = true := by
  have hposition : ({ r with min := .zero } : Region).position i = r.relativePosition i :=
    BlockPos.zero_add _
  have hindex := indexOf?_position (r := { r with min := .zero }) ⟨spanned.1, spanned.2, spanned.3⟩ hi
  rw [hposition] at hindex
  rw [contains, hindex]
  rfl

/-- No two cells have one position, also where positions wrap. -/
theorem position_inj (spanned : r.Spanned) (hi : i < r.volume) (hj : j < r.volume)
    (same : r.position i = r.position j) : i = j := by
  have hindex := indexOf?_position spanned hi
  rw [same, indexOf?_position spanned hj] at hindex
  exact (Option.some.inj hindex).symm

/-- No two cells are at the same way from the minimum corner. -/
theorem relativePosition_inj (spanned : r.Spanned) (hi : i < r.volume) (hj : j < r.volume)
    (same : r.relativePosition i = r.relativePosition j) : i = j :=
  position_inj spanned hi hj (congrArg (r.min + ·) same)

/-- The positions of the cells, in the order in which these are counted. -/
def positions (r : Region) : List BlockPos := (List.range r.volume).map r.position

theorem nodup_positions (spanned : r.Spanned) : r.positions.Nodup :=
  List.nodup_range.map_on fun _ hi _ hj same =>
    position_inj spanned (List.mem_range.1 hi) (List.mem_range.1 hj) same

/-! ## Positions with a number -/

variable {p q : BlockPos}

theorem of_offset? {v : Int32} {size : UInt32} {n : Nat} (h : offset? v size = some n) :
    n < size.toNat ∧ Int32.ofNat n = v := by
  unfold offset? at h
  split at h
  · next hbounds =>
      cases h
      refine ⟨by omega, Int32.toInt_inj.1 ?_⟩
      rw [Int32.toInt_ofNat', Int.toNat_of_nonneg hbounds.1]
      exact Int32.toInt_bmod v
  · cases h

/-- A place in a layer is counted below the size of the layer. -/
theorem place_lt {width length x z : Nat} (hx : x < width) (hz : z < length) :
    z * width + x < width * length :=
  calc
    z * width + x < z * width + width := Nat.add_lt_add_left hx _
    _ = (z + 1) * width := (Nat.succ_mul z width).symm
    _ ≤ length * width := Nat.mul_le_mul_right width hz
    _ = width * length := Nat.mul_comm _ _

theorem count_lt {width height length x y z : Nat} (hx : x < width) (hy : y < height)
    (hz : z < length) : y * width * length + z * width + x < width * height * length :=
  calc
    y * width * length + z * width + x = y * (width * length) + (z * width + x) := by ring
    _ < y * (width * length) + width * length := Nat.add_lt_add_left (place_lt hx hz) _
    _ = (y + 1) * (width * length) := (Nat.succ_mul y _).symm
    _ ≤ height * (width * length) := Nat.mul_le_mul_right _ hy
    _ = width * height * length := by ring

/-- The layer, the row and the place in the row are found again in the number of a cell. -/
theorem count_split {width length x z : Nat} (hx : x < width) (hz : z < length) (y : Nat) :
    (y * width * length + z * width + x) % width = x ∧
      (y * width * length + z * width + x) / (width * length) = y ∧
      (y * width * length + z * width + x) % (width * length) / width = z := by
  have hplace := place_lt hx hz
  have hrows : y * width * length + z * width + x = x + width * (y * length + z) := by ring
  have hlayers : y * width * length + z * width + x = width * length * y + (z * width + x) := by ring
  refine ⟨?_, ?_, ?_⟩
  · rw [hrows, Nat.add_mul_mod_self_left, Nat.mod_eq_of_lt hx]
  · rw [hlayers, Nat.mul_add_div (Nat.zero_lt_of_lt hplace), Nat.div_eq_of_lt hplace, Nat.add_zero]
  · rw [hlayers, Nat.mul_add_mod, Nat.mod_eq_of_lt hplace, Nat.mul_comm,
      Nat.mul_add_div (Nat.zero_lt_of_lt hx), Nat.div_eq_of_lt hx, Nat.add_zero]

/-- A position with a number is the position of a cell, and that cell has the number. -/
theorem of_indexOf? (h : r.indexOf? p = some i) : i < r.volume ∧ r.position i = p := by
  simp only [indexOf?, Option.bind_eq_bind, Option.bind_eq_some_iff, Option.pure_def,
    Option.some.injEq] at h
  rcases h with ⟨x, hx, y, hy, z, hz, rfl⟩
  rcases of_offset? hx with ⟨hxlt, hxback⟩
  rcases of_offset? hy with ⟨hylt, hyback⟩
  rcases of_offset? hz with ⟨hzlt, hzback⟩
  have hvolume : y * r.width.toNat * r.length.toNat + z * r.width.toNat + x < r.volume :=
    count_lt hxlt hylt hzlt
  rcases count_split hxlt hzlt y with ⟨hxsplit, hysplit, hzsplit⟩
  refine ⟨hvolume, ?_⟩
  rw [position, relativePosition_eq hvolume, hxsplit, hysplit, hzsplit, hxback, hyback, hzback]
  exact BlockPos.add_sub_cancel r.min p

/-- The ways from the minimum corner to the cells are the positions of the region at zero. -/
theorem contains_zero_iff (spanned : r.Spanned) :
    ({ r with min := .zero } : Region).contains p = true ↔
      ∃ i < r.volume, r.relativePosition i = p := by
  constructor
  · intro h
    rcases Option.isSome_iff_exists.1 h with ⟨i, hi⟩
    rcases of_indexOf? hi with ⟨hlt, hposition⟩
    exact ⟨i, hlt, (BlockPos.zero_add _).symm.trans hposition⟩
  · rintro ⟨i, hi, rfl⟩
    exact contains_relativePosition spanned hi

/-- Different positions of a region have different numbers. -/
theorem indexOf?_inj (hp : r.indexOf? p = some i) (hq : r.indexOf? q = some i) : p = q :=
  (of_indexOf? hp).2.symm.trans (of_indexOf? hq).2

end Region

end VoxelSchematic
