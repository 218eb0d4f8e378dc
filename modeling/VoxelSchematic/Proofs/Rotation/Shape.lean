import VoxelSchematic.Proofs.OrderedMap
import VoxelSchematic.Proofs.Outcome
import VoxelSchematic.Proofs.Rotation.HookChain
import VoxelSchematic.Proofs.Rotation.QuarterTurns
import VoxelSchematic.Rotation.Shape

/-!
# Turns of ArchitectureCraft shapes

* `Side.turned` is where a side goes about an axis and `Side.twist` how a shape there is turned on
  its side meanwhile; `Shape.turned` is the two together, and `Shape.turned_turned` says that this
  composes.
* About `y` and `z`, a rotation is such a turn. About `x`, it adds a half turn to a shape that it
  brings to the south side (`Shape.rotate_around_x`). `Side.landings` counts how often that happens,
  and `Shape.Reduced.foldl_rotate_x` says what it adds up to.
-/

namespace VoxelSchematic

namespace Side

variable {cycle : List Side} {side : Side} {axis : Axis} {m n q : Int}

/-- The side that some quarter turns lead to along a cycle. -/
def along (cycle : List Side) (q : Int) (side : Side) : Side := advance cycle side (q % 4).toNat

/-- Where a side goes about an axis. Those that the axis goes through stay. -/
def turned : Axis → Int → Side → Side
  | .x, q => along cycleX (-q)
  | .y, q => along cycleY (-q)
  | .z, q => along cycleZ q

/-- The quarter turns on its side that a shape makes with each quarter turn about an axis. -/
def twist : Axis → Side → Int
  | .x, .west => -1
  | .x, .east => 1
  | .y, .down => 1
  | .y, .up => -1
  | .z, .south => -1
  | .z, _ => 1
  | _, _ => 0

/-- How many of some turns about `x`, one after the other, bring a side to the south. Turns that come
to nothing bring it nowhere. -/
def landings : List Int → Side → Nat
  | [], _ => 0
  | q :: rest, side =>
      (if q % 4 ≠ 0 ∧ side.turned .x q = .south then 1 else 0) + landings rest (side.turned .x q)

/-! ## Sides -/

theorem advance_eq_getD (cycle : List Side) (side : Side) (n : Nat) :
    advance cycle side n = (Cycle.following? cycle side n).getD side := by
  unfold advance Cycle.following?
  cases cycle.idxOf? side with
  | none => rfl
  | some i => rfl

theorem along_of_not_mem (h : side ∉ cycle) (q : Int) : along cycle q side = side := by
  rw [along, advance_eq_getD, Cycle.following?_of_not_mem h, Option.getD_none]

theorem along_along (hnodup : cycle.Nodup) (hlength : cycle.length = 4) (m n : Int) (side : Side) :
    along cycle m (along cycle n side) = along cycle (m + n) side := by
  by_cases h : side ∈ cycle
  · rcases Cycle.following?_of_mem h (n % 4).toNat with ⟨next, hnext, -⟩
    have hround : ((n % 4).toNat + (m % 4).toNat) % cycle.length =
        ((m + n) % 4).toNat % cycle.length := by
      rw [hlength]
      omega
    rcases Cycle.following?_of_mem h ((m + n) % 4).toNat with ⟨last, hlast, -⟩
    have hthen : Cycle.following? cycle next (m % 4).toNat = some last := by
      rw [Cycle.following?_following? hnodup hnext, Cycle.following?_congr hround, hlast]
    rw [along, along, along, advance_eq_getD, advance_eq_getD, advance_eq_getD, hnext,
      Option.getD_some, hthen, hlast]
    rfl
  · rw [along_of_not_mem h, along_of_not_mem h, along_of_not_mem h]

theorem turned_turned (axis : Axis) (m n : Int) (side : Side) :
    (side.turned axis n).turned axis m = side.turned axis (m + n) := by
  cases axis with
  | x =>
      rw [turned, turned, turned, along_along (by decide) rfl, Int.neg_add]
  | y =>
      rw [turned, turned, turned, along_along (by decide) rfl, Int.neg_add]
  | z => exact along_along (by decide) rfl m n side

theorem turned_congr (h : m % 4 = n % 4) : side.turned axis m = side.turned axis n := by
  have hneg : -m % 4 = -n % 4 := by omega
  cases axis with
  | x => simp only [turned, along, hneg]
  | y => simp only [turned, along, hneg]
  | z => simp only [turned, along, h]

/-- A side goes where one of four turns brings it. -/
theorem exists_turned_eq (axis : Axis) (q : Int) (side : Side) :
    ∃ r : Fin 4, side.turned axis q = side.turned axis (r.val : Int) :=
  ⟨⟨(q % 4).toNat, by omega⟩, turned_congr (by simp; omega)⟩

/-- No turn makes a side one of those that the axis goes through, or the other way round. -/
theorem twist_turned (axis : Axis) (q : Int) (side : Side) :
    twist axis (side.turned axis q) = twist axis side := by
  rcases exists_turned_eq axis q side with ⟨r, hr⟩
  rw [hr]
  clear hr
  revert r
  cases axis <;> cases side <;> decide

theorem turned_zero (axis : Axis) (side : Side) : side.turned axis 0 = side := by
  cases axis <;> cases side <;> rfl

/-! ## Landings -/

theorem turned_south_ne (h : q % 4 ≠ 0) : Side.south.turned .x q ≠ .south := by
  have hmoved : ∀ r : Fin 4, r.val ≠ 0 → Side.south.turned .x (r.val : Int) ≠ .south := by decide
  rw [turned_congr (n := ((q % 4).toNat : Int)) (by omega)]
  exact hmoved ⟨(q % 4).toNat, by omega⟩ (by simp; omega)

/-- There and back, a side lands once if one of the ends is the south side. -/
theorem landings_there_and_back (q : Int) (side : Side) :
    landings [q, -q] side % 2 = 0 ↔ q % 4 = 0 ∨ side ≠ .south ∧ side.turned .x q ≠ .south := by
  have hback : (side.turned .x q).turned .x (-q) = side := by
    rw [turned_turned, Int.add_left_neg, turned_zero]
  have hneg : -q % 4 = 0 ↔ q % 4 = 0 := by omega
  simp only [landings, hback, ne_eq, hneg]
  by_cases hq : q % 4 = 0
  · simp [hq]
  · by_cases hsouth : side = .south
    · simp [hq, hsouth, turned_south_ne hq]
    · by_cases hlands : side.turned .x q = .south
      · simp [hq, hsouth, hlands]
      · simp [hq, hsouth, hlands]

/-- Around, a side lands once unless it stays. -/
theorem landings_full_circle (side : Side) :
    landings [1, 1, 1, 1] side % 2 = 0 ↔ side = .west ∨ side = .east := by
  cases side <;> decide

end Side

namespace Shape

variable {s : Shape} {axis : Axis} {m n q : Int} {tree : Compound}

/-! ## Turns on the side -/

theorem toInt_turn_spin (s : Shape) (n : Int) : (s.spin n).turn.toInt = (s.turn.toInt + n) % 4 :=
  Int8.toInt_ofInt_of_le (by omega) (by omega)

theorem side_spin (s : Shape) (n : Int) : (s.spin n).side = s.side := rfl

theorem spin_spin (s : Shape) (m n : Int) : (s.spin m).spin n = s.spin (m + n) := by
  have hsum : ((s.turn.toInt + m) % 4 + n) % 4 = (s.turn.toInt + (m + n)) % 4 := by omega
  rw [spin, toInt_turn_spin, hsum]
  rfl

theorem spin_congr (h : m % 4 = n % 4) : s.spin m = s.spin n := by
  have hsum : (s.turn.toInt + m) % 4 = (s.turn.toInt + n) % 4 := by omega
  rw [spin, spin, hsum]

/-- The turn on the side is less than a full one. -/
def Reduced (s : Shape) : Prop := 0 ≤ s.turn.toInt ∧ s.turn.toInt < 4

instance (s : Shape) : Decidable s.Reduced := inferInstanceAs (Decidable (_ ∧ _))

theorem reduced_iff : s.Reduced ↔ 0 ≤ s.turn ∧ s.turn ≤ 3 := by
  have hthree : (3 : Int8).toInt = 3 := rfl
  rw [Int8.le_iff_toInt_le, Int8.le_iff_toInt_le, hthree, Reduced, Int.lt_iff_add_one_le]
  exact and_congr_right fun _ => by omega

theorem Reduced.spin_zero (h : s.Reduced) : s.spin 0 = s := by
  rcases h with ⟨hlow, hhigh⟩
  rw [spin, Int.add_zero, Int.emod_eq_of_lt hlow hhigh, Int8.ofInt_toInt]

theorem reduced_spin (s : Shape) (n : Int) : (s.spin n).Reduced := by
  unfold Reduced
  rw [toInt_turn_spin]
  omega

/-! ## Turns about an axis -/

/-- A shape after some quarter turns about an axis, if nothing but these mattered. A shape that is
not turned on its side keeps its turn even if that is more than a full one. -/
def turned (axis : Axis) (q : Int) (s : Shape) : Shape :=
  let moved := { s with side := s.side.turned axis q }
  if Side.twist axis s.side = 0 then moved else moved.spin (Side.twist axis s.side * q)

theorem side_turned (axis : Axis) (q : Int) (s : Shape) :
    (s.turned axis q).side = s.side.turned axis q := by
  unfold turned
  by_cases h : Side.twist axis s.side = 0
  · rw [if_pos h]
  · rw [if_neg h]
    rfl

theorem turned_turned (axis : Axis) (m n : Int) (s : Shape) :
    (s.turned axis n).turned axis m = s.turned axis (m + n) := by
  have htwist := Side.twist_turned axis n s.side
  by_cases h : Side.twist axis s.side = 0
  · simp only [turned, if_pos h, htwist, Side.turned_turned]
  · have hsum : Side.twist axis s.side * n + Side.twist axis s.side * m =
        Side.twist axis s.side * (m + n) := by ring
    rw [turned, side_turned, htwist, if_neg h, turned, if_neg h, turned, if_neg h, Side.turned_turned,
      ← hsum, ← spin_spin]
    rfl

theorem turned_congr (h : m % 4 = n % 4) : s.turned axis m = s.turned axis n := by
  have hmul : Side.twist axis s.side * m % 4 = Side.twist axis s.side * n % 4 := by
    rw [Int.mul_emod, h, ← Int.mul_emod]
  rw [turned, turned, Side.turned_congr h]
  by_cases htwist : Side.twist axis s.side = 0
  · rw [if_pos htwist, if_pos htwist]
  · rw [if_neg htwist, if_neg htwist, spin_congr hmul]

theorem Reduced.turned_zero (h : s.Reduced) (axis : Axis) : s.turned axis 0 = s := by
  rw [turned, Side.turned_zero, Int.mul_zero, h.spin_zero, ite_self]

/-- It does not matter when a shape is turned on its side. -/
theorem turned_spin (axis : Axis) (q n : Int) (s : Shape) :
    (s.spin n).turned axis q = (s.turned axis q).spin n := by
  by_cases h : Side.twist axis s.side = 0
  · rw [turned, turned, if_pos h]
    exact if_pos h
  · rw [turned, turned, if_neg h, spin_spin, Int.add_comm, ← spin_spin]
    exact if_neg h

/-! ## Rotations -/

section

variable {k : Nat}

theorem aroundY_eq (hpos : k ≠ 0) (hlt : k < 4) : s.aroundY k = s.turned .y k := by
  have hplaces : 4 - k = (-(k : Int) % 4).toNat := by omega
  rcases s with ⟨side, turn⟩
  cases side with
  | down => simp [aroundY, hpos, turned, Side.twist, Side.turned, Side.along_of_not_mem, Side.cycleY]
  | up => simp [aroundY, hpos, turned, Side.twist, Side.turned, Side.along_of_not_mem, Side.cycleY]
  | _ => simp [aroundY, hpos, turned, Side.twist, Side.turned, Side.along, hplaces]

theorem aroundZ_eq (hpos : k ≠ 0) (hlt : k < 4) : s.aroundZ k = s.turned .z (-k) := by
  have hplaces : 4 - k = (-(k : Int) % 4).toNat := by omega
  rcases s with ⟨side, turn⟩
  cases side with
  | south => simp [aroundZ, hpos, turned, Side.twist, Side.turned, Side.along_of_not_mem, Side.cycleZ]
  | north => simp [aroundZ, hpos, turned, Side.twist, Side.turned, Side.along_of_not_mem, Side.cycleZ]
  | _ => simp [aroundZ, hpos, turned, Side.twist, Side.turned, Side.along, hplaces]

theorem aroundX_eq (hpos : k ≠ 0) (hlt : k < 4) :
    s.aroundX k =
      if (s.turned .x (-k)).side = .south then (s.turned .x (-k)).spin 2 else s.turned .x (-k) := by
  have hplaces : k = ((k : Int) % 4).toNat := by omega
  rcases s with ⟨side, turn⟩
  cases side with
  | west => simp [aroundX, hpos, turned, Side.twist, Side.turned, Side.along_of_not_mem, Side.cycleX,
      side_spin]
  | east => simp [aroundX, hpos, turned, Side.twist, Side.turned, Side.along_of_not_mem, Side.cycleX,
      side_spin]
  | _ => simp [aroundX, hpos, turned, Side.twist, Side.turned, Side.along, ← hplaces]

end

/-- A rotation about one axis is one of the three that a rotation is made of. -/
theorem rotate_around_eq (s : Shape) (axis : Axis) (q : Int) :
    s.rotate (.around axis q) =
      match axis with
      | .x => s.aroundX (-AxisRotation.quarterTurns q).val
      | .y => s.aroundY (AxisRotation.quarterTurns q).val
      | .z => s.aroundZ (-AxisRotation.quarterTurns q).val := by
  have hzero : (AxisRotation.quarterTurns 0).val = 0 := rfl
  have hneg : (-AxisRotation.quarterTurns 0).val = 0 := rfl
  have hx : ∀ s, aroundX 0 s = s := fun _ => if_pos rfl
  have hy : ∀ s, aroundY 0 s = s := fun _ => if_pos rfl
  have hz : ∀ s, aroundZ 0 s = s := fun _ => if_pos rfl
  cases axis with
  | x => simp only [rotate, AxisRotation.around, AxisRotation.aroundX, AxisRotation.ofQuarterTurns,
      hzero, hneg, hy, hz]
  | y => simp only [rotate, AxisRotation.around, AxisRotation.aroundY, AxisRotation.ofQuarterTurns,
      hneg, hx, hz]
  | z => simp only [rotate, AxisRotation.around, AxisRotation.aroundZ, AxisRotation.ofQuarterTurns,
      hzero, hneg, hx, hy]

theorem rotate_of_full (h : q % 4 = 0) : s.rotate (.around axis q) = s := by
  have hval : (AxisRotation.quarterTurns q).val = 0 := by
    rw [AxisRotation.val_quarterTurns]
    omega
  have hneg : (-AxisRotation.quarterTurns q).val = 0 := by
    rw [AxisRotation.val_neg_quarterTurns]
    omega
  rw [rotate_around_eq]
  cases axis with
  | x => exact if_pos hneg
  | y => exact if_pos hval
  | z => exact if_pos hneg

/-- About `y` and `z` a shape is turned, and no more. -/
theorem rotate_around (haxis : axis ≠ .x) (h : q % 4 ≠ 0) :
    s.rotate (.around axis q) = s.turned axis q := by
  rw [rotate_around_eq]
  cases axis with
  | x => exact absurd rfl haxis
  | y =>
      simp only [AxisRotation.val_quarterTurns]
      rw [aroundY_eq (by omega) (by omega)]
      exact turned_congr (by omega)
  | z =>
      simp only [AxisRotation.val_neg_quarterTurns]
      rw [aroundZ_eq (by omega) (by omega)]
      exact turned_congr (by omega)

/-- About `x`, a shape that comes to the south side makes a half turn besides. -/
theorem rotate_around_x (h : q % 4 ≠ 0) :
    s.rotate (.around .x q) =
      if (s.turned .x q).side = .south then (s.turned .x q).spin 2 else s.turned .x q := by
  have hturned : s.turned .x (-((-q % 4).toNat : Int)) = s.turned .x q := turned_congr (by omega)
  rw [rotate_around_eq]
  simp only [AxisRotation.val_neg_quarterTurns]
  rw [aroundX_eq (by omega) (by omega), hturned]

/-! ## Landings on the south side -/

theorem Reduced.spin_eq_self_iff (h : s.Reduced) (n : Nat) : s.spin (2 * n) = s ↔ n % 2 = 0 := by
  rcases h with ⟨hlow, hhigh⟩
  constructor
  · intro hsame
    have hturn := congrArg (fun s => s.turn.toInt) hsame
    simp only [toInt_turn_spin] at hturn
    omega
  · intro heven
    rw [spin_congr (n := 0) (by omega), Reduced.spin_zero ⟨hlow, hhigh⟩]

theorem Reduced.turned (h : s.Reduced) (axis : Axis) (q : Int) : (s.turned axis q).Reduced := by
  unfold Shape.turned
  by_cases htwist : Side.twist axis s.side = 0
  · rw [if_pos htwist]
    exact h
  · rw [if_neg htwist]
    exact reduced_spin _ _

theorem Reduced.rotate_x (h : s.Reduced) (q : Int) :
    s.rotate (.around .x q) = (s.turned .x q).spin (2 * Side.landings [q] s.side) := by
  rw [Side.landings, Side.landings]
  by_cases hq : q % 4 = 0
  · have hstay : s.turned .x q = s := by
      rw [turned_congr (n := 0) (by omega), h.turned_zero]
    rw [rotate_of_full hq, hstay, if_neg fun hlands => hlands.1 hq]
    exact h.spin_zero.symm
  · rw [rotate_around_x hq, side_turned]
    by_cases hsouth : s.side.turned .x q = .south
    · rw [if_pos hsouth, if_pos ⟨hq, hsouth⟩]
      rfl
    · rw [if_neg hsouth, if_neg fun hlands => hsouth hlands.2]
      exact (h.turned .x q).spin_zero.symm

/-- Turns about `x`, one after the other, are one turn by their sum, and a half turn for each time
that the shape comes to the south side. -/
theorem Reduced.foldl_rotate_x (h : s.Reduced) (turns : List Int) :
    turns.foldl (fun s q => s.rotate (.around .x q)) s =
      (s.turned .x turns.sum).spin (2 * Side.landings turns s.side) := by
  induction turns generalizing s with
  | nil =>
      rw [List.foldl_nil, List.sum_nil, h.turned_zero]
      exact h.spin_zero.symm
  | cons q rest ih =>
      have hstep := h.rotate_x q
      have hreduced : (s.rotate (.around .x q)).Reduced := by
        rw [hstep]
        exact reduced_spin _ _
      have hside : (s.rotate (.around .x q)).side = s.side.turned .x q := by
        rw [hstep, side_spin, side_turned]
      have hcount : 2 * (Side.landings [q] s.side : Int) +
          2 * (Side.landings rest (s.side.turned .x q) : Int) =
            2 * (Side.landings (q :: rest) s.side : Int) := by
        simp only [Side.landings]
        omega
      rw [List.foldl_cons, ih hreduced, hside, hstep, turned_spin, turned_turned, spin_spin, hcount,
        List.sum_cons, Int.add_comm]

/-! ## Trees -/

/-- A tree states a shape in both of its fields. -/
structure StatedBy (s : Shape) (tree : Compound) : Prop where
  side : tree.get? sideField = some (.byte s.side.toByte)
  turn : tree.get? turnField = some (.byte s.turn)

theorem ofByte?_toByte (side : Side) : Side.ofByte? side.toByte = some side := by
  cases side <;> rfl

theorem toByte_of_ofByte? {n : Int8} {side : Side} (h : Side.ofByte? n = some side) :
    side.toByte = n :=
  eq_of_beq (List.find?_some h :)

theorem ofTree_eq_ok_iff : Shape.ofTree tree = .ok s ↔
    byteField tree sideField = .ok s.side.toByte ∧ byteField tree turnField = .ok s.turn := by
  rcases s with ⟨side, turn⟩
  rw [Shape.ofTree, Outcome.except_bind_eq_ok_iff]
  constructor
  · rintro ⟨n, hside, h⟩
    rcases Outcome.except_bind_eq_ok_iff.1 h with ⟨v, hturn, hmade⟩
    cases hfound : Side.ofByte? n with
    | none =>
        rw [hfound] at hmade
        cases hmade
    | some found =>
        rw [hfound] at hmade
        cases hmade
        rw [toByte_of_ofByte? hfound]
        exact ⟨hside, hturn⟩
  · rintro ⟨hside, hturn⟩
    refine ⟨side.toByte, hside, Outcome.except_bind_eq_ok_iff.2 ⟨turn, hturn, ?_⟩⟩
    rw [ofByte?_toByte]
    rfl

theorem StatedBy.ofTree (h : s.StatedBy tree) : Shape.ofTree tree = .ok s :=
  ofTree_eq_ok_iff.2 ⟨by rw [byteField, h.side], by rw [byteField, h.turn]⟩

theorem statedBy_writeTo (s : Shape) (tree : Compound) : s.StatedBy (s.writeTo tree) where
  side := by
    rw [writeTo, OrderedMap.get?_insert, if_neg (by decide), OrderedMap.get?_insert, if_pos rfl]
  turn := by
    rw [writeTo, OrderedMap.get?_insert, if_pos rfl]

theorem StatedBy.writeTo (h : s.StatedBy tree) : s.writeTo tree = tree := by
  rw [Shape.writeTo, OrderedMap.insert_of_get? h.side, OrderedMap.insert_of_get? h.turn]

theorem writeTo_writeTo (s old : Shape) (tree : Compound) :
    s.writeTo (old.writeTo tree) = s.writeTo tree := by
  have hmem : sideField ∈ (OrderedMap.insert tree sideField (.byte old.side.toByte)).keys := by
    have hget : (OrderedMap.insert tree sideField (.byte old.side.toByte)).get? sideField ≠ none := by
      rw [OrderedMap.get?_insert, if_pos rfl]
      exact Option.some_ne_none _
    exact not_not.1 (mt OrderedMap.get?_eq_none_iff.2 hget)
  rw [Shape.writeTo, Shape.writeTo, OrderedMap.insert_insert_comm (by decide) hmem,
    OrderedMap.insert_insert_self, OrderedMap.insert_insert_self]
  rfl

/-- A shape that is read was stated, as far as the fields are there. -/
theorem statedBy_of_ofTree (h : Shape.ofTree tree = .ok s) (hside : tree.contains sideField = true)
    (hturn : tree.contains turnField = true) : s.StatedBy tree := by
  have hbyte : ∀ {key : String} {v : Int8}, byteField tree key = .ok v →
      tree.contains key = true → tree.get? key = some (.byte v) := by
    intro key v hfield hthere
    unfold byteField at hfield
    rw [OrderedMap.contains_eq_isSome_get?] at hthere
    split at hfield
    · next hnone =>
        rw [hnone] at hthere
        cases hthere
    · next found hfound =>
        rw [hfound, Except.ok.inj hfield]
    · cases hfield
  rcases ofTree_eq_ok_iff.1 h with ⟨hs, ht⟩
  exact ⟨hbyte hs hside, hbyte ht hturn⟩

/-- A tree after some quarter turns about an axis, with its shape written out even if these come to
nothing. -/
def turnTree (axis : Axis) (q : Int) (tree : Compound) : Compound :=
  match Shape.ofTree tree with
  | .error _ => tree
  | .ok s => (s.turned axis q).writeTo tree

theorem turnTree_turnTree (axis : Axis) (m n : Int) (tree : Compound) :
    turnTree axis m (turnTree axis n tree) = turnTree axis (m + n) tree := by
  cases hstated : Shape.ofTree tree with
  | error fault => simp only [turnTree, hstated]
  | ok s =>
      have hwritten := (statedBy_writeTo (s.turned axis n) tree).ofTree
      simp only [turnTree, hstated, hwritten, writeTo_writeTo, turned_turned]

theorem turnTree_congr (h : m % 4 = n % 4) (tree : Compound) :
    turnTree axis m tree = turnTree axis n tree := by
  simp only [turnTree, turned_congr h]

/-- No turn at all changes nothing, if the tree has both fields and its turn is less than full. -/
theorem turnTree_zero (axis : Axis) (hside : tree.contains sideField = true)
    (hturn : tree.contains turnField = true)
    (hrange : ∀ v, tree.get? turnField = some (.byte v) → 0 ≤ v ∧ v ≤ 3) :
    turnTree axis 0 tree = tree := by
  unfold turnTree
  cases hread : Shape.ofTree tree with
  | error fault => rfl
  | ok s =>
      have hstated := statedBy_of_ofTree hread hside hturn
      have hreduced : s.Reduced := reduced_iff.2 (hrange s.turn hstated.turn)
      simp only [hreduced.turned_zero]
      exact hstated.writeTo

/-- What the hook makes of a tree that states a shape or not. -/
theorem result_hook (rotation : AxisRotation) (tree : Compound) :
    hook.result rotation tree =
      if rotation.isIdentity then tree
      else
        match Shape.ofTree tree with
        | .error _ => tree
        | .ok s => (s.rotate rotation).writeTo tree := by
  unfold Hook.result hook transform
  by_cases hidentity : rotation.isIdentity = true
  · simp [hidentity]
  · cases hstated : Shape.ofTree tree with
    | error fault => simp [hidentity, hstated]
    | ok s => simp [hidentity, hstated]

end Shape

end VoxelSchematic
