import VoxelSchematic.Proofs.Notices
import VoxelSchematic.Rotation.HookChain

/-!
# Chains turn a cell or leave it

* `HookChain.Completes` says that hooks go through, which of them are asked on the way, and what
  tree they leave. `HookChain.Halts` says that one of them fails, and what came before it.
* `HookChain.Completes.turn_append`: hooks that go through can be taken off the front of a chain.
* `HookChain.apply_whole`: a chain goes through as a whole, or else the cell stays as it was.
-/

namespace VoxelSchematic

/-- What a tree is after a hook; one that needs no change stays as it is. -/
def Hook.result (hook : Hook) (rotation : AxisRotation) (tree : Compound) : Compound :=
  match (hook.transform tree rotation).1 with
  | .ok answer => answer.getD tree
  | .error _ => tree

/-- What a hook reports of a tree. -/
def Hook.reports (hook : Hook) (rotation : AxisRotation) (tree : Compound) : List Report :=
  reportsOf (hook.transform tree rotation).2

namespace HookChain

variable {rotation : AxisRotation} {tree now final : Compound} {hooks before : List Hook}
  {asked : List (Hook × Compound)} {hook : Hook} {fault : TransformError}

/-! ## Hooks in order -/

/-- The hooks go through from a tree to another. Those that are asked are listed with the trees that
they see. -/
inductive Completes (rotation : AxisRotation) (tree : Compound) :
    List Hook → List (Hook × Compound) → Compound → Prop
  | start : Completes rotation tree [] [] tree
  | pass {before : List Hook} {asked : List (Hook × Compound)} {now : Compound} {hook : Hook} :
      Completes rotation tree before asked now → now.getString? "id" ≠ some hook.tileEntityId →
      Completes rotation tree (before ++ [hook]) asked now
  | ask {before : List Hook} {asked : List (Hook × Compound)} {now : Compound} {hook : Hook}
      {answer : Option Compound} :
      Completes rotation tree before asked now → now.getString? "id" = some hook.tileEntityId →
      (hook.transform now rotation).1 = .ok answer →
      Completes rotation tree (before ++ [hook]) (asked ++ [(hook, now)]) (answer.getD now)

/-- A hook fails on the tree that the hooks before it leave. -/
inductive Halts (rotation : AxisRotation) (tree : Compound) :
    List Hook → List (Hook × Compound) → Hook → Compound → TransformError → Prop
  | intro {before : List Hook} {asked : List (Hook × Compound)} {now : Compound} {hook : Hook}
      {fault : TransformError} (after : List Hook) :
      Completes rotation tree before asked now → now.getString? "id" = some hook.tileEntityId →
      (hook.transform now rotation).1 = .error fault →
      Halts rotation tree (before ++ hook :: after) asked hook now fault

theorem completes_or_halts (rotation : AxisRotation) (tree : Compound) (hooks : List Hook) :
    (∃ asked final, Completes rotation tree hooks asked final) ∨
      ∃ asked hook now fault, Halts rotation tree hooks asked hook now fault := by
  -- One hook more either passes, is asked, or fails; one that failed before it still does.
  induction hooks using List.reverseRecOn with
  | nil => exact .inl ⟨[], tree, .start⟩
  | append_singleton hooks hook ih =>
      rcases ih with ⟨asked, now, hdone⟩ | ⟨asked, failing, now, fault, hhalts⟩
      · by_cases hname : now.getString? "id" = some hook.tileEntityId
        · cases hanswer : (hook.transform now rotation).1 with
          | ok answer => exact .inl ⟨_, _, hdone.ask hname hanswer⟩
          | error fault => exact .inr ⟨_, _, _, _, .intro [] hdone hname hanswer⟩
        · exact .inl ⟨asked, now, hdone.pass hname⟩
      · cases hhalts with
        | @intro before _ _ _ _ after hdone hname hfault =>
            rw [List.append_assoc, List.cons_append]
            exact .inr ⟨_, _, _, _, .intro (after ++ [hook]) hdone hname hfault⟩

/-- The tree that is left is what the asked hooks make of the first, one after the other. -/
theorem Completes.final_eq (h : Completes rotation tree hooks asked final) :
    final = (asked.map Prod.fst).foldl (fun now hook => hook.result rotation now) tree := by
  induction h with
  | start => rfl
  | pass _ _ ih => exact ih
  | @ask before asked now hook answer _ _ hanswer ih =>
      have hresult : hook.result rotation now = answer.getD now := by rw [Hook.result, hanswer]
      rw [List.map_append, List.foldl_append, ← ih]
      exact hresult.symm

/-! ## What is said -/

/-- What is said of a tree that a hook is asked about, if it does not fail. -/
def saidOf (rotation : AxisRotation) (call : Hook × Compound) : List Notice :=
  (call.1.transform call.2 rotation).2 ++
    match (call.1.transform call.2 rotation).1 with
    | .ok (some _) => [turnedNote call.1.tileEntityId rotation]
    | _ => []

/-- Of a tree that has been turned, only the log hears. -/
theorem reportsOf_saidOf (rotation : AxisRotation) (call : Hook × Compound) :
    reportsOf (saidOf rotation call) = call.1.reports rotation call.2 := by
  rw [saidOf, reportsOf_append, Hook.reports]
  split
  · exact List.append_nil _
  · exact List.append_nil _

theorem reportsOf_flatMap_saidOf (rotation : AxisRotation) (asked : List (Hook × Compound)) :
    reportsOf (asked.flatMap (saidOf rotation)) =
      asked.flatMap fun call => call.1.reports rotation call.2 := by
  rw [reportsOf, List.filterMap_flatMap]
  exact List.flatMap_congr fun call _ => reportsOf_saidOf rotation call

/-! ## Trees -/

theorem handles_iff : handles hook tree = true ↔ tree.getString? "id" = some hook.tileEntityId :=
  beq_iff_eq

theorem turn_cons_of_pass (rest : List Hook) (h : now.getString? "id" ≠ some hook.tileEntityId) :
    turn rotation (hook :: rest) now = turn rotation rest now := by
  rw [turn, if_neg (mt handles_iff.1 h)]

theorem turn_cons_of_ok (rest : List Hook) (h : now.getString? "id" = some hook.tileEntityId)
    {answer : Option Compound} (hanswer : (hook.transform now rotation).1 = .ok answer) :
    turn rotation (hook :: rest) now =
      ((turn rotation rest (answer.getD now)).1,
        saidOf rotation (hook, now) ++ (turn rotation rest (answer.getD now)).2) := by
  have hcall : hook.transform now rotation = (.ok answer, (hook.transform now rotation).2) :=
    Prod.ext hanswer rfl
  rw [turn, if_pos (handles_iff.2 h), saidOf, hcall]
  cases answer with
  | none => simp
  | some turned => simp

theorem turn_cons_of_error (rest : List Hook) (h : now.getString? "id" = some hook.tileEntityId)
    (hfault : (hook.transform now rotation).1 = .error fault) :
    turn rotation (hook :: rest) now =
      (none, (hook.transform now rotation).2 ++ [failureNote hook.tileEntityId rotation fault]) := by
  have hcall : hook.transform now rotation = (.error fault, (hook.transform now rotation).2) :=
    Prod.ext hfault rfl
  rw [turn, if_pos (handles_iff.2 h), hcall]

/-- Hooks that go through leave the rest of the chain to turn what they left. -/
theorem Completes.turn_append (h : Completes rotation tree before asked now) (rest : List Hook) :
    turn rotation (before ++ rest) tree =
      ((turn rotation rest now).1, asked.flatMap (saidOf rotation) ++ (turn rotation rest now).2) := by
  -- The last of the hooks that went through is the first of those that are left.
  induction h generalizing rest with
  | start => simp
  | pass _ hname ih =>
      rw [List.append_assoc, List.singleton_append, ih, turn_cons_of_pass rest hname]
  | ask _ hname hanswer ih =>
      rw [List.append_assoc, List.singleton_append, ih, turn_cons_of_ok rest hname hanswer]
      simp

theorem Completes.turn_eq (h : Completes rotation tree hooks asked final) :
    turn rotation hooks tree = (some final, asked.flatMap (saidOf rotation)) := by
  have hturn := h.turn_append []
  rw [List.append_nil] at hturn
  rw [hturn, turn, List.append_nil]

theorem Halts.turn_eq (h : Halts rotation tree hooks asked hook now fault) :
    turn rotation hooks tree =
      (none, asked.flatMap (saidOf rotation) ++ ((hook.transform now rotation).2 ++
        [failureNote hook.tileEntityId rotation fault])) := by
  cases h with
  | intro after hdone hname hfault =>
      rw [hdone.turn_append, turn_cons_of_error after hname hfault]

/-! ## Cells -/

section

variable {cell : Cell}

theorem untouched_or_turns (cell : Cell) (rotation : AxisRotation) :
    (rotation.isIdentity = true ∨ cell.tree = none) ∨
      ∃ tree, cell.tree = some tree ∧ rotation.isIdentity = false := by
  cases htree : cell.tree with
  | none => exact .inl (.inr rfl)
  | some tree =>
      cases hturns : rotation.isIdentity with
      | true => exact .inl (.inl rfl)
      | false => exact .inr ⟨tree, rfl, rfl⟩

theorem apply_of_untouched (c : HookChain)
    (h : rotation.isIdentity = true ∨ cell.tree = none) : c.apply cell rotation = (cell, []) := by
  unfold apply
  cases htree : cell.tree with
  | none => rfl
  | some tree =>
      rw [htree] at h
      simp only [h.resolve_right (Option.some_ne_none tree), if_true]

theorem apply_of_turn {c : HookChain} (htree : cell.tree = some tree)
    (turns : rotation.isIdentity = false) :
    c.apply cell rotation =
      (((turn rotation c.hooks tree).1.map fun turned => { cell with tree := some turned }).getD cell,
        (turn rotation c.hooks tree).2) := by
  unfold apply
  rw [htree]
  simp only [turns, Bool.false_eq_true, if_false]
  rcases turn rotation c.hooks tree with ⟨outcome, said⟩
  cases outcome with
  | none => rfl
  | some turned => rfl

theorem run_turnInPlace_cons (hook : Hook) (rest : List Hook) (cell : Cell) (now : Compound) :
    (turnInPlace rotation (hook :: rest)).run { cell with tree := some now } =
      if handles hook now then
        match hook.transform now rotation with
        | (.ok answer, _) =>
            let after := (turnInPlace rotation rest).run { cell with tree := some (answer.getD now) }
            ((after.1.1, saidOf rotation (hook, now) ++ after.1.2), after.2)
        | (.error fault, said) =>
            ((false, said ++ [failureNote hook.tileEntityId rotation fault]),
              { cell with tree := some now })
      else (turnInPlace rotation rest).run { cell with tree := some now } := by
  rw [turnInPlace]
  change StateT.run (if handles hook now = true then _ else _) _ = _
  by_cases hhandles : handles hook now = true
  · rw [if_pos hhandles, if_pos hhandles, saidOf]
    rcases hook.transform now rotation with ⟨_ | _ | _, said⟩
    · rfl
    · simp only [List.append_nil]
      rfl
    · simp only [List.append_assoc, List.singleton_append]
      rfl
  · rw [if_neg hhandles, if_neg hhandles]

/-- A tree goes the same way in its place. Where a hook fails, it is left half turned. -/
theorem run_turnInPlace (rotation : AxisRotation) (hooks : List Hook) (cell : Cell) (tree : Compound) :
    ∃ left, (turnInPlace rotation hooks).run { cell with tree := some tree } =
        (((turn rotation hooks tree).1.isSome, (turn rotation hooks tree).2),
          { cell with tree := some left }) ∧
      ∀ final, (turn rotation hooks tree).1 = some final → left = final := by
  induction hooks generalizing tree with
  | nil => exact ⟨tree, rfl, fun final hfinal => Option.some.inj hfinal⟩
  | cons hook rest ih =>
      rw [run_turnInPlace_cons]
      by_cases hname : tree.getString? "id" = some hook.tileEntityId
      · rw [if_pos (handles_iff.2 hname)]
        rcases hcall : hook.transform tree rotation with ⟨fault | answer, said⟩
        · rw [turn_cons_of_error rest hname (congrArg Prod.fst hcall), hcall]
          exact ⟨tree, rfl, nofun⟩
        · rcases ih (answer.getD tree) with ⟨left, hrun, hleft⟩
          rw [turn_cons_of_ok rest hname (congrArg Prod.fst hcall)]
          refine ⟨left, ?_, hleft⟩
          simp only [hrun]
      · rw [if_neg (mt handles_iff.1 hname), turn_cons_of_pass rest hname]
        exact ih tree

/-- Turning a cell in its place is turning it. -/
theorem run_applyInPlace (c : HookChain) (cell : Cell) (rotation : AxisRotation) :
    (c.applyInPlace rotation).run cell =
      ((c.apply cell rotation).2, (c.apply cell rotation).1) := by
  rw [applyInPlace]
  change StateT.run (if (rotation.isIdentity || cell.tree.isNone) = true then _ else _) cell = _
  rcases untouched_or_turns cell rotation with huntouched | ⟨tree, htree, hturns⟩
  · rw [c.apply_of_untouched huntouched, if_pos (by simpa using huntouched)]
    rfl
  · rw [apply_of_turn htree hturns, if_neg (by simp [htree, hturns])]
    rcases cell with ⟨id, data, own⟩
    cases htree
    rcases run_turnInPlace rotation c.hooks ⟨id, data, some tree⟩ tree with ⟨left, hrun, hleft⟩
    rw [StateT.run_bind, hrun]
    -- If a hook failed, the tree that is put back is the one that the chain started with.
    generalize turn rotation c.hooks tree = turned at hleft
    rcases turned with ⟨_ | final, said⟩
    · rfl
    · cases hleft final rfl
      rfl

/-- Only the tree of a cell changes. -/
theorem exists_tree_apply (c : HookChain) (cell : Cell) (rotation : AxisRotation) :
    ∃ left, (c.apply cell rotation).1 = { cell with tree := left } := by
  rcases untouched_or_turns cell rotation with huntouched | ⟨tree, htree, hturns⟩
  · rw [c.apply_of_untouched huntouched]
    exact ⟨cell.tree, rfl⟩
  · rw [apply_of_turn htree hturns]
    cases (turn rotation c.hooks tree).1 with
    | none => exact ⟨cell.tree, rfl⟩
    | some turned => exact ⟨some turned, rfl⟩

/-- A chain turns a cell as a whole or leaves it as it was. Of the hooks, those are asked that are
for the tile entity of the tree as the hooks before them left it. If none fails, the tree becomes
what they make of it, one after the other. The first that fails is the last that is asked, and the
chain adds one warning to what the hooks report. -/
theorem apply_whole (c : HookChain) (cell : Cell) (rotation : AxisRotation) :
    (c.applyInPlace rotation).run cell =
      ((c.apply cell rotation).2, (c.apply cell rotation).1) ∧
    (c.apply cell rotation).1.id = cell.id ∧ (c.apply cell rotation).1.data = cell.data ∧
    (rotation.isIdentity = true ∨ cell.tree = none → c.apply cell rotation = (cell, [])) ∧
    ∀ tree, cell.tree = some tree → rotation.isIdentity = false →
      ((∃ asked final, Completes rotation tree c.hooks asked final) ∨
        ∃ asked hook now fault, Halts rotation tree c.hooks asked hook now fault) ∧
      (∀ asked final, Completes rotation tree c.hooks asked final →
        (c.apply cell rotation).1 = { cell with tree := some final } ∧
        final = (asked.map Prod.fst).foldl (fun now hook => hook.result rotation now) tree ∧
        reportsOf (c.apply cell rotation).2 =
          asked.flatMap fun call => call.1.reports rotation call.2) ∧
      ∀ asked hook now fault, Halts rotation tree c.hooks asked hook now fault →
        (c.apply cell rotation).1 = cell ∧
        reportsOf (c.apply cell rotation).2 =
          (asked ++ [(hook, now)]).flatMap (fun call => call.1.reports rotation call.2) ++
            [⟨.warning,
              s!"Could not rotate {hook.tileEntityId} by {rotation.text}: {fault.message}"⟩] := by
  rcases c.exists_tree_apply cell rotation with ⟨left, hleft⟩
  refine ⟨c.run_applyInPlace cell rotation, by rw [hleft], by rw [hleft], c.apply_of_untouched,
    fun tree htree turns => ?_⟩
  rw [apply_of_turn htree turns]
  refine ⟨completes_or_halts rotation tree c.hooks, fun asked final hdone => ?_,
    fun asked hook now fault hhalts => ?_⟩
  · rw [hdone.turn_eq]
    exact ⟨rfl, hdone.final_eq, reportsOf_flatMap_saidOf rotation asked⟩
  · rw [hhalts.turn_eq, reportsOf_append, reportsOf_append, reportsOf_flatMap_saidOf]
    rw [List.flatMap_append, List.flatMap_singleton, List.append_assoc]
    exact ⟨rfl, rfl⟩

end

end HookChain

end VoxelSchematic
