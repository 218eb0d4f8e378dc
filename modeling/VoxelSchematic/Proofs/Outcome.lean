import Mathlib

/-!
# Outcomes of work with a state

Readers, writers and tellings are all functions from a state to an outcome. These lemmas take the
outcome of a sequence apart.
-/

namespace VoxelSchematic.Outcome

variable {ε σ α β : Type} {x : EStateM ε σ α} {f : α → EStateM ε σ β} {g : α → β}
  {s s' : σ} {a : α} {b : β} {e : ε}

theorem pure_apply (a : α) (s : σ) : (pure a : EStateM ε σ α) s = .ok a s := rfl

theorem throw_apply (e : ε) (s : σ) : (throw e : EStateM ε σ α) s = .error e s := rfl

theorem bind_of_ok (h : x s = .ok a s') : (x >>= f) s = f a s' := by
  simp [bind, EStateM.bind, h]

theorem bind_of_error (h : x s = .error e s') : (x >>= f) s = .error e s' := by
  simp [bind, EStateM.bind, h]

/-- A sequence succeeds if its parts do, the second from where the first ends. -/
theorem bind_eq_ok_iff :
    (x >>= f) s = .ok b s' ↔ ∃ a mid, x s = .ok a mid ∧ f a mid = .ok b s' := by
  cases hx : x s with
  | ok a mid => simp [bind_of_ok hx]
  | error e mid => simp [bind_of_error hx]

theorem map_eq_ok_iff : (g <$> x) s = .ok b s' ↔ ∃ a, x s = .ok a s' ∧ g a = b := by
  rw [map_eq_pure_bind, bind_eq_ok_iff]
  simp only [pure_apply, EStateM.Result.ok.injEq]
  constructor
  · intro h
    rcases h with ⟨a, mid, hx, hb, rfl⟩
    exact ⟨a, hx, hb⟩
  · intro h
    rcases h with ⟨a, hx, hb⟩
    exact ⟨a, s', hx, hb, rfl⟩

/-- The same for work without a state. -/
theorem except_bind_eq_ok_iff {x : Except ε α} {f : α → Except ε β} :
    x >>= f = .ok b ↔ ∃ a, x = .ok a ∧ f a = .ok b := by
  cases x with
  | ok a => simp [bind, Except.bind]
  | error e => simp [bind, Except.bind]

theorem except_mapError_eq_ok_iff {ε' : Type} {x : Except ε α} {f : ε → ε'} :
    x.mapError f = .ok a ↔ x = .ok a := by
  cases x with
  | ok a => simp [Except.mapError]
  | error e => simp [Except.mapError]

end VoxelSchematic.Outcome
