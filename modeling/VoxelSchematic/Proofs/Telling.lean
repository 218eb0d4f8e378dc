import VoxelSchematic.Proofs.Outcome
import VoxelSchematic.Report

/-!
# Work that succeeds and work that fails

* `Telling.Yields` says that work succeeds with a value, whatever has been said before it and
  whatever it says itself.
* `Telling.Silently` says besides that the work itself says nothing.
* `Telling.Fails` says that work fails with a fault, whatever has been said.
* `ofExcept_eq_ok_iff` and `mapError_eq_ok_iff` take a run that succeeded apart.
* `Telling.StopsAt` says that work goes through a list of faults: it fails with the first, and
  succeeds if there are none.
* `Telling.Agree` compares two works that say the same and come to related outcomes.
-/

namespace VoxelSchematic.Telling

variable {ε ε' α β : Type}

/-- The work succeeds with the value. -/
def Yields (work : Telling ε α) (v : α) : Prop := ∀ said, ∃ said', work said = .ok v said'

theorem yields_pure (v : α) : Yields (pure v : Telling ε α) v := fun said => ⟨said, rfl⟩

theorem Yields.bind {work : Telling ε α} {next : α → Telling ε β} {a : α} {b : β}
    (h : Yields work a) (hnext : Yields (next a) b) : Yields (work >>= next) b := by
  intro said
  rcases h said with ⟨mid, hwork⟩
  rcases hnext mid with ⟨said', hrest⟩
  exact ⟨said', (Outcome.bind_of_ok hwork).trans hrest⟩

theorem yields_log (level : LogLevel) (text : String) : Yields (log level text : Telling ε Unit) () :=
  fun said => ⟨said.push (.logged level text), rfl⟩

theorem yields_warn (text : String) : Yields (warn text : Telling ε Unit) () :=
  fun said => ⟨said.push (.warning text), rfl⟩

theorem ofExcept_ok (v : α) : ofExcept (.ok v : Except ε α) = pure v := rfl

theorem Yields.mapError {work : Telling ε α} {v : α} (h : Yields work v) (f : ε → ε') :
    Yields (work.mapError f) v := by
  intro said
  rcases h said with ⟨said', hwork⟩
  exact ⟨said', by simp [Telling.mapError, hwork]⟩

/-! ## Without a word -/

/-- The work succeeds with the value and says nothing. -/
def Silently (work : Telling ε α) (v : α) : Prop := ∀ said, work said = .ok v said

theorem Silently.yields {work : Telling ε α} {v : α} (h : Silently work v) : Yields work v :=
  fun said => ⟨said, h said⟩

theorem silently_pure (v : α) : Silently (pure v : Telling ε α) v := fun _ => rfl

theorem Silently.bind {work : Telling ε α} {next : α → Telling ε β} {a : α} {b : β}
    (h : Silently work a) (hnext : Silently (next a) b) : Silently (work >>= next) b :=
  fun said => (Outcome.bind_of_ok (h said)).trans (hnext said)

theorem Silently.mapError {work : Telling ε α} {v : α} (h : Silently work v) (f : ε → ε') :
    Silently (work.mapError f) v := by
  intro said
  simp [Telling.mapError, h said]

/-! ## Runs that succeeded -/

section

variable {work : Telling ε α} {v : α} {said said' : Array Notice}

/-- Work that yields a value has no other outcome. -/
theorem Yields.eq_of_ok {a : α} (h : Yields work a) (run : work said = .ok v said') : v = a := by
  rcases h said with ⟨mid, hwork⟩
  rw [hwork] at run
  cases run
  rfl

theorem ofExcept_eq_ok_iff {result : Except ε α} :
    ofExcept result said = .ok v said' ↔ result = .ok v ∧ said = said' := by
  cases result with
  | ok a => simp [ofExcept, Outcome.pure_apply]
  | error fault => simp [ofExcept, Outcome.throw_apply]

theorem mapError_eq_ok_iff {f : ε → ε'} :
    work.mapError f said = .ok v said' ↔ work said = .ok v said' := by
  unfold Telling.mapError
  cases work said with
  | ok a mid => simp
  | error fault mid => simp

end

/-! ## Work that fails -/

section

variable {work : Telling ε α} {v : α} {fault : ε} {said said' : Array Notice}

/-- The work fails with the fault. -/
def Fails (work : Telling ε α) (fault : ε) : Prop := ∀ said, ∃ said', work said = .error fault said'

theorem fails_throw (fault : ε) : Fails (throw fault : Telling ε α) fault := fun said => ⟨said, rfl⟩

theorem Fails.bind (h : Fails work fault) (next : α → Telling ε β) :
    Fails (work >>= next) fault := by
  intro said
  rcases h said with ⟨said', hwork⟩
  exact ⟨said', Outcome.bind_of_error hwork⟩

theorem Fails.eq_of_error {other : ε} (h : Fails work fault) (run : work said = .error other said') :
    other = fault := by
  rcases h said with ⟨mid, hwork⟩
  rw [hwork] at run
  cases run
  rfl

theorem Fails.ne_ok (h : Fails work fault) : work said ≠ .ok v said' := by
  rcases h said with ⟨mid, hwork⟩
  rw [hwork]
  nofun

theorem Yields.ne_error (h : Yields work v) : work said ≠ .error fault said' := by
  rcases h said with ⟨mid, hwork⟩
  rw [hwork]
  nofun

end

/-! ## Faults in order -/

section

variable {work : Telling ε α} {next : α → Telling ε β} {a : α} {fault : ε} {faults more : List ε}

/-- Of the faults, the work fails with the first; without any, it succeeds. -/
def StopsAt (work : Telling ε α) : List ε → Prop
  | [] => ∃ v, Yields work v
  | fault :: _ => Fails work fault

theorem Yields.stopsAt (h : Yields work a) : StopsAt work [] := ⟨a, h⟩

theorem stopsAt_pure (v : α) : StopsAt (pure v : Telling ε α) [] := (yields_pure v).stopsAt

theorem stopsAt_throw (fault : ε) : StopsAt (throw fault : Telling ε α) [fault] := fails_throw fault

theorem Yields.bind_fails (h : Yields work a) (hnext : Fails (next a) fault) :
    Fails (work >>= next) fault := by
  intro said
  rcases h said with ⟨mid, hwork⟩
  rcases hnext mid with ⟨said', hrest⟩
  exact ⟨said', (Outcome.bind_of_ok hwork).trans hrest⟩

/-- The faults of the second part come after those of the first. -/
theorem StopsAt.bind (h : StopsAt work faults) (hnext : ∀ v, Yields work v → StopsAt (next v) more) :
    StopsAt (work >>= next) (faults ++ more) := by
  cases faults with
  | cons fault rest => exact Fails.bind h next
  | nil =>
      rcases h with ⟨v, hv⟩
      cases more with
      | cons fault rest => exact hv.bind_fails (hnext v hv)
      | nil =>
          rcases hnext v hv with ⟨w, hw⟩
          exact ⟨w, hv.bind hw⟩

/-- What cannot fail adds no faults. -/
theorem StopsAt.bind_faultless (h : StopsAt work faults) (hnext : ∀ v, StopsAt (next v) []) :
    StopsAt (work >>= next) faults := by
  rw [← List.append_nil faults]
  exact h.bind fun v _ => hnext v

/-- Work that succeeded succeeds whatever has been said. -/
theorem StopsAt.yields_of_ok {said said' : Array Notice} (h : StopsAt work faults)
    (run : work said = .ok a said') : Yields work a := by
  cases faults with
  | nil =>
      rcases h with ⟨v, hv⟩
      rw [hv.eq_of_ok run]
      exact hv
  | cons fault rest => exact absurd run (Fails.ne_ok h)

/-- Whether the work fails, and with what, does not depend on what has been said. -/
theorem StopsAt.error_iff (h : StopsAt work faults) (said : Array Notice) :
    (∃ said', work said = .error fault said') ↔ faults.head? = some fault := by
  cases faults with
  | nil =>
      rcases h with ⟨v, hv⟩
      refine iff_of_false ?_ nofun
      rintro ⟨said', herror⟩
      exact hv.ne_error herror
  | cons first rest =>
      rw [List.head?_cons, Option.some.injEq]
      constructor
      · rintro ⟨said', herror⟩
        exact (Fails.eq_of_error h herror).symm
      · rintro rfl
        exact h said

theorem ofExcept_bind (result : Except ε α) (f : α → Except ε β) :
    ofExcept (result >>= f) = ofExcept result >>= fun v => ofExcept (f v) := by
  cases result with
  | ok v => rfl
  | error fault => rfl

theorem yields_ofExcept_iff {result : Except ε α} : Yields (ofExcept result) a ↔ result = .ok a := by
  constructor
  · intro h
    rcases h #[] with ⟨said', hresult⟩
    exact (ofExcept_eq_ok_iff.1 hresult).1
  · intro h
    rw [h]
    exact yields_pure a

end

/-! ## Works that agree -/

section

variable {α' β' : Type} {R : α → α' → Prop} {S : β → β' → Prop} {work : Telling ε α}
  {work' : Telling ε α'} {a : α} {a' : α'}

/-- Whatever has been said before, both works say the same, and they fail with the same fault or
succeed with related values. -/
def Agree (R : α → α' → Prop) (work : Telling ε α) (work' : Telling ε α') : Prop :=
  ∀ said,
    (∃ fault said', work said = .error fault said' ∧ work' said = .error fault said') ∨
      ∃ v v' said', work said = .ok v said' ∧ work' said = .ok v' said' ∧ R v v'

theorem Silently.agree (h : Silently work a) (h' : Silently work' a') (ha : R a a') :
    Agree R work work' :=
  fun said => .inr ⟨a, a', said, h said, h' said, ha⟩

theorem agree_pure (h : R a a') : Agree R (pure a : Telling ε α) (pure a') :=
  (silently_pure a).agree (silently_pure a') h

theorem agree_throw (fault : ε) :
    Agree R (throw fault : Telling ε α) (throw fault : Telling ε α') :=
  fun said => .inl ⟨fault, said, rfl, rfl⟩

theorem agree_self (work : Telling ε α) : Agree Eq work work := by
  intro said
  cases hwork : work said with
  | ok v said' => exact .inr ⟨v, v, said', rfl, rfl, rfl⟩
  | error fault said' => exact .inl ⟨fault, said', rfl, rfl⟩

theorem Agree.bind {next : α → Telling ε β} {next' : α' → Telling ε β'} (h : Agree R work work')
    (hnext : ∀ v v', R v v' → Agree S (next v) (next' v')) :
    Agree S (work >>= next) (work' >>= next') := by
  intro said
  rcases h said with ⟨fault, mid, hwork, hwork'⟩ | ⟨v, v', mid, hwork, hwork', hv⟩
  · exact .inl ⟨fault, mid, Outcome.bind_of_error hwork, Outcome.bind_of_error hwork'⟩
  · rw [Outcome.bind_of_ok hwork, Outcome.bind_of_ok hwork']
    exact hnext v v' hv mid

theorem Agree.mapError (h : Agree R work work') (f : ε → ε') :
    Agree R (work.mapError f) (work'.mapError f) := by
  intro said
  rcases h said with ⟨fault, mid, hwork, hwork'⟩ | ⟨v, v', mid, hwork, hwork', hv⟩
  · exact .inl ⟨f fault, mid, by simp [Telling.mapError, hwork], by simp [Telling.mapError, hwork']⟩
  · exact .inr ⟨v, v', mid, by simp [Telling.mapError, hwork], by simp [Telling.mapError, hwork'], hv⟩

end

end VoxelSchematic.Telling
