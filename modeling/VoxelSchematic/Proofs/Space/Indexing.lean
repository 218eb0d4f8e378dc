import VoxelSchematic.Proofs.Space

/-!
# Counting the cells of a region

In a region whose sides a coordinate can span, the cells and the positions inside belong together
one to one, wherever the region lies and also where positions wrap.

* `mem_positions_iff` and `encard_contains`: the positions inside are those of the cells, and there
  are as many of them.
* `max_eq_position`: the opposite corner is the position of the last cell.
* `volumeInWords?` and its neighbours do the same arithmetic in words of 64 bits and give up where a
  step does not fit. In a `Sized` region every step fits.
-/

namespace VoxelSchematic.Region

variable {r : Region} {p : BlockPos}

/-! ## Cells and positions -/

/-- The positions of the cells are the positions inside. -/
theorem mem_positions_iff (spanned : r.Spanned) : p ∈ r.positions ↔ r.contains p = true := by
  rw [positions, List.mem_map, contains, Option.isSome_iff_exists]
  constructor
  · rintro ⟨i, hi, rfl⟩
    exact ⟨i, indexOf?_position spanned (List.mem_range.1 hi)⟩
  · rintro ⟨i, hi⟩
    rcases of_indexOf? hi with ⟨hlt, hposition⟩
    exact ⟨i, List.mem_range.2 hlt, hposition⟩

theorem length_positions (r : Region) : r.positions.length = r.volume := by
  rw [positions, List.length_map, List.length_range]

/-- As many positions are inside as there are cells. -/
theorem encard_contains (spanned : r.Spanned) : {p | r.contains p = true}.encard = r.volume := by
  have hinside : {p | r.contains p = true} = (r.positions.toFinset : Set BlockPos) := by
    ext p
    rw [List.coe_toFinset]
    exact (mem_positions_iff spanned).symm
  rw [hinside, Set.encard_coe_eq_coe_finsetCard,
    List.toFinset_card_of_nodup (nodup_positions spanned), length_positions]

/-! ## The opposite corner -/

/-- The last offset along a side. -/
theorem ofNat_pred {side : UInt32} (h : 0 < side.toNat) :
    Int32.ofNat (side.toNat - 1) = side.toInt32 - 1 := by
  rw [Int32.ofNat_sub _ _ h, ← UInt32.toInt32_ofNat', UInt32.ofNat_toNat]
  rfl

/-- The last cell is the last one along each axis. -/
theorem volume_pred {width height length : Nat} (hx : 0 < width) (hy : 0 < height)
    (hz : 0 < length) : width * height * length - 1 =
      (height - 1) * width * length + (length - 1) * width + (width - 1) := by
  rcases Nat.exists_eq_add_of_lt hx with ⟨x, rfl⟩
  rcases Nat.exists_eq_add_of_lt hy with ⟨y, rfl⟩
  rcases Nat.exists_eq_add_of_lt hz with ⟨z, rfl⟩
  simp only [Nat.zero_add, Nat.add_sub_cancel]
  have hcount : (x + 1) * (y + 1) * (z + 1) = y * (x + 1) * (z + 1) + z * (x + 1) + x + 1 := by ring
  rw [hcount, Nat.add_sub_cancel]

theorem max_eq_position (nonempty : r.isEmpty = false) : r.max = r.position (r.volume - 1) := by
  have hvolume : 0 < r.volume := Nat.pos_of_ne_zero (by simpa [isEmpty] using nonempty)
  rcases coordinates_lt hvolume with ⟨hx, hy, hz⟩
  have hwidth := Nat.zero_lt_of_lt hx
  have hheight := Nat.zero_lt_of_lt hy
  have hlength := Nat.zero_lt_of_lt hz
  rcases count_split (Nat.sub_one_lt_of_lt hwidth) (Nat.sub_one_lt_of_lt hlength)
    (r.height.toNat - 1) with ⟨hxsplit, hysplit, hzsplit⟩
  rw [position, relativePosition_eq (Nat.sub_one_lt_of_lt hvolume), volume,
    volume_pred hwidth hheight hlength, hxsplit, hysplit, hzsplit, ofNat_pred hwidth,
    ofNat_pred hheight, ofNat_pred hlength]
  rfl

/-! ## Counting in words -/

/-- A product of words, if it is a word of 64 bits itself. -/
def product? (a b : Nat) : Option Nat := if a * b < UInt64.size then some (a * b) else none

/-- A sum of words, if it is a word of 64 bits itself. -/
def sum? (a b : Nat) : Option Nat := if a + b < UInt64.size then some (a + b) else none

/-- `volume` in words. -/
def volumeInWords? (r : Region) : Option Nat := do
  product? (← product? r.width.toNat r.height.toNat) r.length.toNat

/-- The number of a cell by its offsets, in words. -/
def countInWords? (r : Region) (x y z : Nat) : Option Nat := do
  let layers ← product? (← product? y r.width.toNat) r.length.toNat
  let rows ← product? z r.width.toNat
  sum? (← sum? layers rows) x

/-- `indexOf?` in words; without an answer where a step overflows. -/
def indexInWords? (r : Region) (p : BlockPos) : Option (Option Nat) :=
  let relative := p - r.min
  match offset? relative.x r.width, offset? relative.y r.height, offset? relative.z r.length with
  | some x, some y, some z => (r.countInWords? x y z).map some
  | _, _, _ => some none

/-- `relativePosition` in words. -/
def relativeInWords? (r : Region) (index : Nat) : Option BlockPos := do
  let width := Nat.max r.width.toNat 1
  let layer ← product? width (Nat.max r.length.toNat 1)
  return ⟨.ofNat (index % width), .ofNat (index / layer), .ofNat (index % layer / width)⟩

/-- The cells can be counted in 64 bits, and told apart by coordinates. -/
structure Sized (r : Region) : Prop extends r.Spanned where
  volume : r.volume < 2 ^ 64

theorem product?_of_lt {a b : Nat} (h : a * b < 2 ^ 64) : product? a b = some (a * b) := if_pos h

theorem sum?_of_lt {a b : Nat} (h : a + b < 2 ^ 64) : sum? a b = some (a + b) := if_pos h

/-- A product of sides. -/
theorem sides_lt {a b : Nat} (ha : a ≤ 2 ^ 31) (hb : b ≤ 2 ^ 31) : a * b < 2 ^ 64 :=
  calc
    a * b ≤ 2 ^ 31 * 2 ^ 31 := Nat.mul_le_mul ha hb
    _ < 2 ^ 64 := by decide

theorem Sized.volumeInWords? (sized : r.Sized) : r.volumeInWords? = some r.volume := by
  have hlayer := product?_of_lt (sides_lt sized.width.le sized.height.le)
  rw [Region.volumeInWords?, hlayer]
  exact product?_of_lt sized.volume

theorem Sized.countInWords? (sized : r.Sized) {x y z : Nat} (hx : x < r.width.toNat)
    (hy : y < r.height.toNat) (hz : z < r.length.toNat) :
    r.countInWords? x y z =
      some (y * r.width.toNat * r.length.toNat + z * r.width.toNat + x) := by
  -- Every step stays below the number of the cell, which is below the volume.
  have hcount : y * r.width.toNat * r.length.toNat + z * r.width.toNat + x < 2 ^ 64 :=
    (count_lt hx hy hz).trans sized.volume
  have hrow : y * r.width.toNat < 2 ^ 64 :=
    sides_lt (hy.trans sized.height).le sized.width.le
  simp only [Region.countInWords?, product?_of_lt hrow, Option.bind_eq_bind, Option.bind_some,
    product?_of_lt (show y * r.width.toNat * r.length.toNat < 2 ^ 64 by omega),
    product?_of_lt (show z * r.width.toNat < 2 ^ 64 by omega),
    sum?_of_lt (show y * r.width.toNat * r.length.toNat + z * r.width.toNat < 2 ^ 64 by omega),
    sum?_of_lt hcount]

theorem Sized.indexInWords? (sized : r.Sized) (p : BlockPos) :
    r.indexInWords? p = some (r.indexOf? p) := by
  simp only [Region.indexInWords?, indexOf?, Option.bind_eq_bind]
  cases hx : offset? (p - r.min).x r.width with
  | none => rfl
  | some x =>
      cases hy : offset? (p - r.min).y r.height with
      | none => rfl
      | some y =>
          cases hz : offset? (p - r.min).z r.length with
          | none => rfl
          | some z =>
              simp only [sized.countInWords? (of_offset? hx).1 (of_offset? hy).1 (of_offset? hz).1]
              rfl

theorem Sized.relativeInWords? (sized : r.Sized) (i : Nat) :
    r.relativeInWords? i = some (r.relativePosition i) := by
  have hwidth : Nat.max r.width.toNat 1 ≤ 2 ^ 31 := Nat.max_le.2 ⟨sized.width.le, by decide⟩
  have hlength : Nat.max r.length.toNat 1 ≤ 2 ^ 31 := Nat.max_le.2 ⟨sized.length.le, by decide⟩
  rw [Region.relativeInWords?, product?_of_lt (sides_lt hwidth hlength)]
  rfl

/-! ## One to one -/

/-- The cells of a region and the positions inside it belong together one to one, also where the
region reaches over the edge of the world. The opposite corner is the position of the last cell, and
all the counting is done in words of 64 bits without overflow. -/
theorem Sized.indexing (sized : r.Sized) :
    (∀ i < r.volume, r.indexOf? (r.min + r.relativePosition i) = some i) ∧
    (∀ p i, r.indexOf? p = some i → i < r.volume ∧ r.min + r.relativePosition i = p) ∧
    {p | r.contains p = true}.encard = r.volume ∧
    (r.isEmpty = false → r.max = r.min + r.relativePosition (r.volume - 1)) ∧
    r.volumeInWords? = some r.volume ∧
    (∀ p, r.indexInWords? p = some (r.indexOf? p)) ∧
    ∀ i, r.relativeInWords? i = some (r.relativePosition i) :=
  ⟨fun _ hi => indexOf?_position sized.toSpanned hi, fun _ _ hp => of_indexOf? hp,
    encard_contains sized.toSpanned, max_eq_position, sized.volumeInWords?, sized.indexInWords?,
    sized.relativeInWords?⟩

/-- A region that passes the greatest coordinate along two of its axes. -/
def edgeRegion : Region := ⟨⟨2147483646, -1, 2147483647⟩, 3, 2, 4⟩

theorem Sized.indexing_edgeRegion :
    edgeRegion.indexOf? (edgeRegion.min + edgeRegion.relativePosition 23) = some 23 ∧
    edgeRegion.min + edgeRegion.relativePosition 17 = ⟨-2147483648, 0, -2147483648⟩ ∧
    {p | edgeRegion.contains p = true}.encard = 24 ∧
    edgeRegion.max = edgeRegion.min + edgeRegion.relativePosition 23 := by
  have hsized : edgeRegion.Sized := ⟨⟨by decide, by decide, by decide⟩, by decide⟩
  rcases hsized.indexing with ⟨hindex, hposition, hcard, hmax, -⟩
  exact ⟨hindex 23 (by decide), (hposition _ 17 (by decide)).2, hcard, hmax (by decide)⟩

end VoxelSchematic.Region
