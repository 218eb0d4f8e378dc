import VoxelSchematic.Proofs.Telling

/-!
# What is said along the way

* `Telling.Tells` says of work that succeeds which notices it gives, in order. The notices of a
  sequence are those of its parts, one after the other.
* `Telling.Reports` keeps the reports to whoever asked for the work, and leaves the log aside;
  `Telling.Logs` keeps what the log is told, and leaves the reports aside.
-/

namespace VoxelSchematic

variable {ε ε' α β : Type}

theorem reportsOf_append (notices more : List Notice) :
    reportsOf (notices ++ more) = reportsOf notices ++ reportsOf more := List.filterMap_append

theorem logsOf_append (notices more : List Notice) :
    logsOf (notices ++ more) = logsOf notices ++ logsOf more := List.filterMap_append

theorem reportsOf_warnings (texts : List String) :
    reportsOf (texts.map Notice.warning) = texts.map (Report.mk .warning) := by
  rw [reportsOf, List.filterMap_map]
  exact congrFun (List.filterMap_eq_map (f := Report.mk .warning)) texts

namespace Telling

variable {work : Telling ε α} {next : α → Telling ε β} {a : α} {b : β}

/-- The work succeeds with the value and gives just these notices, whatever has been said before. -/
def Tells (work : Telling ε α) (v : α) (notices : List Notice) : Prop :=
  ∀ said, work said = .ok v (said ++ notices)

section

variable {notices more : List Notice}

theorem Silently.tells (h : Silently work a) : Tells work a [] := by
  intro said
  rw [h said, Array.appendList_nil]

theorem Tells.silently (h : Tells work a []) : Silently work a := by
  intro said
  rw [h said, Array.appendList_nil]

theorem tells_pure (v : α) : Tells (pure v : Telling ε α) v [] := (silently_pure v).tells

theorem Tells.bind (h : Tells work a notices) (hnext : Tells (next a) b more) :
    Tells (work >>= next) b (notices ++ more) := by
  intro said
  have happend : said ++ notices ++ more = said ++ (notices ++ more) := Array.ext' (by simp)
  rw [Outcome.bind_of_ok (h said), hnext, happend]

theorem Tells.yields (h : Tells work a notices) : Yields work a := fun said => ⟨_, h said⟩

theorem tells_tell (notice : Notice) : Tells (tell notice : Telling ε Unit) () [notice] := by
  intro said
  have hpush : said ++ [notice] = said.push notice := by simp
  rw [hpush]
  rfl

theorem tells_forM_warn (texts : List String) :
    Tells (texts.forM warn : Telling ε Unit) () (texts.map Notice.warning) := by
  induction texts with
  | nil => exact tells_pure ()
  | cons text rest ih => exact (tells_tell (.warning text)).bind ih

end

/-! ## Reports -/

/-- The work succeeds with the value and makes just these reports, whatever it says in the log. -/
def Reports (work : Telling ε α) (v : α) (reports : List Report) : Prop :=
  ∃ notices, Tells work v notices ∧ reportsOf notices = reports

section

variable {reports more : List Report}

theorem reports_pure (v : α) : Reports (pure v : Telling ε α) v [] := ⟨[], tells_pure v, rfl⟩

theorem Reports.yields (h : Reports work a reports) : Yields work a := by
  rcases h with ⟨notices, htells, -⟩
  exact htells.yields

theorem Reports.bind (h : Reports work a reports) (hnext : Reports (next a) b more) :
    Reports (work >>= next) b (reports ++ more) := by
  rcases h with ⟨notices, hwork, rfl⟩
  rcases hnext with ⟨further, hrest, rfl⟩
  exact ⟨notices ++ further, hwork.bind hrest, reportsOf_append notices further⟩

/-- What reports nothing adds no reports. -/
theorem Reports.bind_unreported (h : Reports work a reports) (hnext : Reports (next a) b []) :
    Reports (work >>= next) b reports := by
  rw [← List.append_nil reports]
  exact h.bind hnext

/-- Only the log is told of it. -/
theorem reports_log (level : LogLevel) (text : String) :
    Reports (log level text : Telling ε Unit) () [] := ⟨_, tells_tell (.logged level text), rfl⟩

/-- What only the log is told in some cases makes no report. -/
theorem Reports.after_log (needed : Prop) [Decidable needed] (level : LogLevel) (text : String)
    {work : Telling ε α} (h : Reports work a reports) :
    Reports (if needed then do log level text; work else work) a reports := by
  by_cases hneeded : needed
  · rw [if_pos hneeded]
    exact (reports_log level text).bind h
  · rw [if_neg hneeded]
    exact h

theorem reports_warn (text : String) :
    Reports (warn text : Telling ε Unit) () [⟨.warning, text⟩] :=
  ⟨_, tells_tell (.warning text), rfl⟩

/-- A warning in some cases comes before the other reports. -/
theorem Reports.after_warn (needed : Prop) [Decidable needed] (text : String)
    {work : Telling ε α} (h : Reports work a reports) :
    Reports (if needed then do warn text; work else work) a
      ((if needed then [⟨.warning, text⟩] else []) ++ reports) := by
  by_cases hneeded : needed
  · rw [if_pos hneeded, if_pos hneeded]
    exact (reports_warn text).bind h
  · rw [if_neg hneeded, if_neg hneeded]
    exact h

theorem reports_forM_warn (texts : List String) :
    Reports (texts.forM warn : Telling ε Unit) () (texts.map (Report.mk .warning)) :=
  ⟨_, tells_forM_warn texts, reportsOf_warnings texts⟩

end

/-! ## Records of the log -/

/-- The work succeeds with the value and tells the log just this, whatever it reports. -/
def Logs (work : Telling ε α) (v : α) (records : List LogRecord) : Prop :=
  ∃ notices, Tells work v notices ∧ logsOf notices = records

section

variable {notices : List Notice} {records more : List LogRecord}

theorem Tells.logs (h : Tells work a notices) : Logs work a (logsOf notices) := ⟨notices, h, rfl⟩

theorem logs_pure (v : α) : Logs (pure v : Telling ε α) v [] := (tells_pure v).logs

theorem Logs.yields (h : Logs work a records) : Yields work a := by
  rcases h with ⟨notices, htells, -⟩
  exact htells.yields

theorem Logs.bind (h : Logs work a records) (hnext : Logs (next a) b more) :
    Logs (work >>= next) b (records ++ more) := by
  rcases h with ⟨notices, hwork, rfl⟩
  rcases hnext with ⟨further, hrest, rfl⟩
  exact ⟨notices ++ further, hwork.bind hrest, logsOf_append notices further⟩

/-- What says nothing tells the log nothing. -/
theorem Silently.logs_bind (h : Silently work a) (hnext : Logs (next a) b more) :
    Logs (work >>= next) b more := h.tells.logs.bind hnext

theorem Logs.bind_silently (h : Logs work a records) (hnext : Silently (next a) b) :
    Logs (work >>= next) b records := by
  rw [← List.append_nil records]
  exact h.bind hnext.tells.logs

/-- The log does not hear of a warning. -/
theorem Logs.after_warn (needed : Prop) [Decidable needed] (text : String) {work : Telling ε α}
    (h : Logs work a records) : Logs (if needed then do warn text; work else work) a records := by
  by_cases hneeded : needed
  · rw [if_pos hneeded]
    exact (tells_tell (.warning text)).logs.bind h
  · rw [if_neg hneeded]
    exact h

end

/-! ## Work without reports -/

/-- The work succeeds and reports nothing, whatever it says in the log. -/
def Unreported (work : Telling ε α) : Prop := ∃ v, Reports work v []

theorem unreported_pure (v : α) : Unreported (pure v : Telling ε α) := ⟨v, reports_pure v⟩

theorem unreported_log (level : LogLevel) (text : String) :
    Unreported (log level text : Telling ε Unit) := ⟨(), reports_log level text⟩

theorem Unreported.bind (h : Unreported work) (hnext : ∀ v, Unreported (next v)) :
    Unreported (work >>= next) := by
  rcases h with ⟨v, hwork⟩
  rcases hnext v with ⟨w, hrest⟩
  exact ⟨w, hwork.bind hrest⟩

theorem unreported_foldlM {step : β → α → Telling ε β} (hstep : ∀ b a, Unreported (step b a))
    (items : List α) (b : β) : Unreported (items.foldlM step b) := by
  induction items generalizing b with
  | nil => exact unreported_pure b
  | cons item rest ih =>
      rw [List.foldlM_cons]
      exact (hstep b item).bind ih

end Telling

end VoxelSchematic
