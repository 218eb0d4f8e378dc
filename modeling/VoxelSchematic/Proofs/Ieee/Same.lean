import VoxelSchematic.Proofs.Ieee.Widening

/-!
# Equal numbers

Equality of floats as numbers is symmetric and transitive, and all floats but the NaNs are equal to
themselves. Floats that are equal as numbers are equal as numbers in the other width too. Neither a
change of the width nor a conversion from an integer makes a NaN of a number.
-/

namespace VoxelSchematic.Ieee

namespace Format

variable {f source : Format} {w : Nat}

theorem convert_le_infinity (h : source.isNan w = false) : f.convert source w ≤ f.infinity := by
  rw [convert, if_neg (by simp [h])]
  split
  · exact Nat.le_refl _
  · exact f.ofRatio_le_infinity _ _

theorem convert_zero (h : 0 < source.infinity) : f.convert source 0 = 0 := by
  have hsignificand : source.significand 0 = 0 := by
    simp [significand, biasedExponent, fraction]
  rw [convert_of_finite f source h, hsignificand, ofScaled_zero]

end Format

namespace Binary32

variable {x y z : Binary32}

theorem same_iff : x.same y = true ↔
    x.isNan = false ∧ y.isNan = false ∧ (x = y ∨ x.magnitude = 0 ∧ y.magnitude = 0) := by
  have hbits : x = y ↔ x.bits = y.bits := ⟨congrArg bits, congrArg mk⟩
  simp [same, hbits, and_assoc]

theorem same_self (h : x.isNan = false) : x.same x = true := same_iff.2 ⟨h, h, .inl rfl⟩

theorem same_self_iff : x.same x = true ↔ x.isNan = false := ⟨fun h => (same_iff.1 h).1, same_self⟩

theorem same_symm (h : x.same y = true) : y.same x = true := by
  rcases same_iff.1 h with ⟨hx, hy, heq⟩
  exact same_iff.2 ⟨hy, hx, heq.imp Eq.symm And.symm⟩

theorem same_trans (h : x.same y = true) (h' : y.same z = true) : x.same z = true := by
  rcases same_iff.1 h with ⟨hx, -, rfl | ⟨hxzero, hyzero⟩⟩
  · exact h'
  · rcases same_iff.1 h' with ⟨-, hz, rfl | ⟨-, hzzero⟩⟩
    · exact h
    · exact same_iff.2 ⟨hx, hz, .inr ⟨hxzero, hzzero⟩⟩

theorem magnitude_ofParts {negative : Bool} {word : Nat} (h : word ≤ single.infinity) :
    (ofParts negative word).magnitude = word :=
  (parts_ofParts negative (Nat.lt_of_le_of_lt h (by decide))).2

theorem isNan_ofParts {negative : Bool} {word : Nat} (h : word ≤ single.infinity) :
    (ofParts negative word).isNan = false := by
  rw [isNan, magnitude_ofParts h]
  exact decide_eq_false (Nat.not_lt.2 h)

end Binary32

namespace Binary64

variable {x y z : Binary64}

theorem same_iff : x.same y = true ↔
    x.isNan = false ∧ y.isNan = false ∧ (x = y ∨ x.magnitude = 0 ∧ y.magnitude = 0) := by
  have hbits : x = y ↔ x.bits = y.bits := ⟨congrArg bits, congrArg mk⟩
  simp [same, hbits, and_assoc]

theorem same_self (h : x.isNan = false) : x.same x = true := same_iff.2 ⟨h, h, .inl rfl⟩

theorem same_self_iff : x.same x = true ↔ x.isNan = false := ⟨fun h => (same_iff.1 h).1, same_self⟩

theorem same_symm (h : x.same y = true) : y.same x = true := by
  rcases same_iff.1 h with ⟨hx, hy, heq⟩
  exact same_iff.2 ⟨hy, hx, heq.imp Eq.symm And.symm⟩

theorem same_trans (h : x.same y = true) (h' : y.same z = true) : x.same z = true := by
  rcases same_iff.1 h with ⟨hx, -, rfl | ⟨hxzero, hyzero⟩⟩
  · exact h'
  · rcases same_iff.1 h' with ⟨-, hz, rfl | ⟨-, hzzero⟩⟩
    · exact h
    · exact same_iff.2 ⟨hx, hz, .inr ⟨hxzero, hzzero⟩⟩

theorem magnitude_ofParts {negative : Bool} {word : Nat} (h : word ≤ double.infinity) :
    (ofParts negative word).magnitude = word :=
  (parts_ofParts negative (Nat.lt_of_le_of_lt h (by decide))).2

theorem isNan_ofParts {negative : Bool} {word : Nat} (h : word ≤ double.infinity) :
    (ofParts negative word).isNan = false := by
  rw [isNan, magnitude_ofParts h]
  exact decide_eq_false (Nat.not_lt.2 h)

theorem same_zero : zero.same zero = true := by decide

/-- The double of an integer is a number. -/
theorem same_ofInt (n : Int) : (ofInt n).same (ofInt n) = true :=
  same_self (isNan_ofParts (double.ofRatio_le_infinity _ _))

end Binary64

theorem Binary32.same_widen {x y : Binary32} (h : x.same y = true) :
    x.widen.same y.widen = true := by
  rcases same_iff.1 h with ⟨hx, hy, rfl | ⟨hxzero, hyzero⟩⟩
  · exact Binary64.same_self (Binary64.isNan_ofParts (Format.convert_le_infinity hx))
  · have hmagnitude : ∀ z : Binary32, z.isNan = false → z.magnitude = 0 →
        z.widen.magnitude = 0 := by
      intro z hz hzero
      rw [widen, Binary64.magnitude_ofParts (Format.convert_le_infinity hz), hzero]
      exact Format.convert_zero (by decide)
    exact Binary64.same_iff.2 ⟨Binary64.isNan_ofParts (Format.convert_le_infinity hx),
      Binary64.isNan_ofParts (Format.convert_le_infinity hy),
      .inr ⟨hmagnitude x hx hxzero, hmagnitude y hy hyzero⟩⟩

theorem Binary64.same_narrow {x y : Binary64} (h : x.same y = true) :
    x.narrow.same y.narrow = true := by
  rcases same_iff.1 h with ⟨hx, hy, rfl | ⟨hxzero, hyzero⟩⟩
  · exact Binary32.same_self (Binary32.isNan_ofParts (Format.convert_le_infinity hx))
  · have hmagnitude : ∀ z : Binary64, z.isNan = false → z.magnitude = 0 →
        z.narrow.magnitude = 0 := by
      intro z hz hzero
      rw [narrow, Binary32.magnitude_ofParts (Format.convert_le_infinity hz), hzero]
      exact Format.convert_zero (by decide)
    exact Binary32.same_iff.2 ⟨Binary32.isNan_ofParts (Format.convert_le_infinity hx),
      Binary32.isNan_ofParts (Format.convert_le_infinity hy),
      .inr ⟨hmagnitude x hx hxzero, hmagnitude y hy hyzero⟩⟩

end VoxelSchematic.Ieee
