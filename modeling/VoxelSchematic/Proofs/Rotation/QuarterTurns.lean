import Mathlib
import VoxelSchematic.Rotation.Basic

/-!
# Quarter turns

* `AxisRotation.around` names the rotations about one axis.
* `Cycle.following?` goes along a list and starts over at its end. Going on from where one has come
  to is going all the way at once (`Cycle.following?_following?`).
* `foldl_turns`: where turns compose, turns one after the other are one turn by their sum.
-/

namespace VoxelSchematic

/-- What one can turn about. -/
inductive Axis where
  | x
  | y
  | z
deriving Repr, DecidableEq

namespace AxisRotation

/-- Some quarter turns about one axis, in either direction. -/
def around : Axis → Int → AxisRotation
  | .x => aroundX
  | .y => aroundY
  | .z => aroundZ

variable {axis : Axis} {q : Int}

theorem val_quarterTurns (q : Int) : (quarterTurns q).val = (q % 4).toNat := rfl

theorem val_neg_quarterTurns (q : Int) : (-quarterTurns q).val = (-q % 4).toNat := by
  rw [Fin.val_neg', val_quarterTurns]
  omega

theorem quarterTurns_eq_zero_iff : quarterTurns q = quarterTurns 0 ↔ q % 4 = 0 := by
  rw [← Fin.val_inj, val_quarterTurns, val_quarterTurns]
  omega

theorem isIdentity_around_iff : (around axis q).isIdentity = true ↔ q % 4 = 0 := by
  have hnone : none = ofQuarterTurns 0 0 0 := by decide
  rw [← quarterTurns_eq_zero_iff, isIdentity, beq_iff_eq, hnone]
  cases axis with
  | x => simp [around, aroundX, ofQuarterTurns]
  | y => simp [around, aroundY, ofQuarterTurns]
  | z => simp [around, aroundZ, ofQuarterTurns]

theorem isIdentity_around_eq_false (h : q % 4 ≠ 0) : (around axis q).isIdentity = false :=
  Bool.eq_false_iff.2 (mt isIdentity_around_iff.1 h)

end AxisRotation

/-! ## Cycles -/

namespace Cycle

variable {α : Type} [BEq α] {cycle : List α} {a b : α} {m n : Nat}

/-- The member that lies some places after another one. -/
def following? (cycle : List α) (member : α) (places : Nat) : Option α :=
  (cycle.idxOf? member).bind fun i => cycle[(i + places) % cycle.length]?

/-- Full rounds do not count. -/
theorem following?_congr (h : m % cycle.length = n % cycle.length) :
    following? cycle a m = following? cycle a n := by
  unfold following?
  congr 1
  funext i
  rw [Nat.add_mod, h, ← Nat.add_mod]

variable [LawfulBEq α]

theorem following?_of_not_mem (h : a ∉ cycle) (n : Nat) : following? cycle a n = none := by
  rw [following?, List.idxOf?_eq_none_iff.2 h]
  rfl

/-- A member of the cycle has a place, and the one that follows it is found from there. -/
theorem exists_place (h : a ∈ cycle) : ∃ i, cycle.idxOf? a = some i ∧ cycle[i]? = some a := by
  cases hplace : cycle.idxOf? a with
  | none => exact absurd h (List.idxOf?_eq_none_iff.1 hplace)
  | some i =>
      rcases List.idxOf?_eq_some_iff.1 hplace with ⟨hbound, hmember, -⟩
      exact ⟨i, rfl, List.getElem?_eq_some_iff.2 ⟨hbound, hmember⟩⟩

theorem following?_of_mem (h : a ∈ cycle) (n : Nat) :
    ∃ b, following? cycle a n = some b ∧ b ∈ cycle := by
  rcases exists_place h with ⟨i, hplace, -⟩
  have hbound : (i + n) % cycle.length < cycle.length :=
    Nat.mod_lt _ (List.length_pos_of_mem h)
  refine ⟨cycle[(i + n) % cycle.length], ?_, List.getElem_mem hbound⟩
  rw [following?, hplace, Option.bind_some, List.getElem?_eq_getElem hbound]

theorem mem_of_following? (h : following? cycle a n = some b) : a ∈ cycle := by
  by_contra hnot
  rw [following?_of_not_mem hnot] at h
  cases h

theorem following?_zero (h : a ∈ cycle) : following? cycle a 0 = some a := by
  rcases exists_place h with ⟨i, hplace, hmember⟩
  rw [following?, hplace, Option.bind_some, Nat.add_zero,
    Nat.mod_eq_of_lt (List.getElem?_eq_some_iff.1 hmember).1, hmember]

/-- Without repeated members, one may stop on the way. -/
theorem following?_following? (hnodup : cycle.Nodup) (h : following? cycle a m = some b) (n : Nat) :
    following? cycle b n = following? cycle a (m + n) := by
  rcases exists_place (mem_of_following? h) with ⟨i, hplace, -⟩
  rw [following?, hplace, Option.bind_some] at h
  rcases List.getElem?_eq_some_iff.1 h with ⟨hbound, rfl⟩
  have hstop : cycle.idxOf? cycle[(i + m) % cycle.length] = some ((i + m) % cycle.length) := by
    refine List.idxOf?_eq_some_iff.2 ⟨hbound, rfl, fun j hj hsame => ?_⟩
    exact absurd ((hnodup.getElem_inj_iff).1 hsame) (Nat.ne_of_lt hj)
  rw [following?, following?, hstop, hplace, Option.bind_some, Option.bind_some, Nat.mod_add_mod,
    Nat.add_assoc]

end Cycle

/-! ## Turns one after the other -/

/-- Turns that compose, one after the other, are one turn by their sum. Turns that come to nothing
are left out, so that nothing may have happened at all. -/
theorem foldl_turns {α : Type} {turn : Int → α → α}
    (hadd : ∀ m n a, turn m (turn n a) = turn (m + n) a)
    (hmod : ∀ m n a, m % 4 = n % 4 → turn m a = turn n a) (turns : List Int) (a : α) :
    turns.sum % 4 = 0 ∧ turns.foldl (fun a q => if q % 4 = 0 then a else turn q a) a = a ∨
      turns.foldl (fun a q => if q % 4 = 0 then a else turn q a) a = turn turns.sum a := by
  induction turns generalizing a with
  | nil => exact .inl ⟨rfl, rfl⟩
  | cons q rest ih =>
      rw [List.foldl_cons, List.sum_cons]
      by_cases hq : q % 4 = 0
      · rw [if_pos hq]
        rcases ih a with ⟨hsum, hstay⟩ | hturn
        · exact .inl ⟨by omega, hstay⟩
        · exact .inr (hturn.trans (hmod _ _ a (by omega)))
      · rw [if_neg hq]
        rcases ih (turn q a) with ⟨hsum, hstay⟩ | hturn
        · exact .inr (hstay.trans (hmod _ _ a (by omega)))
        · rw [hturn, hadd, Int.add_comm]
          exact .inr rfl

end VoxelSchematic
