import VoxelSchematic.Proofs.Rotation.Shape
import VoxelSchematic.Proofs.Rotation.Slope
import VoxelSchematic.Rotation.Bundled

/-!
# Turns of cells one after the other

* `Compound.Reoriented` says what may happen to a tree that is turned: a field of the orientation
  gets another value of its type or is added at the end, and all else stays. Every step of the
  bundled chain keeps to it (`HookChain.reoriented_apply_bundled`).
* `Compound.turned` is a turn about an axis as the bundled hooks understand it. About `y` and `z`
  the chain does just that, so turns about one of these compose.
* About `x` they compose up to half turns, one for each landing on the south side.
-/

namespace VoxelSchematic

namespace Compound

variable {tree left right : Compound} {key : String} {value : Tag}

/-! ## What turning may change -/

/-- The fields that state an orientation. -/
def orientationFields : List String := [Slope.field, Shape.sideField, Shape.turnField]

/-- An entry keeps its key and its type, and its value too if it states no orientation. -/
structure EntryKept (old new : String × Tag) : Prop where
  key : new.1 = old.1
  kind : new.2.kind = old.2.kind
  value : old.1 ∉ orientationFields → new.2 = old.2

/-- Entries are kept in order, and behind the last come fields of the orientation only. -/
inductive EntriesKept : List (String × Tag) → List (String × Tag) → Prop
  | added {new : List (String × Tag)} :
      (∀ entry ∈ new, entry.1 ∈ orientationFields) → EntriesKept [] new
  | kept {old new : String × Tag} {rest left : List (String × Tag)} :
      EntryKept old new → EntriesKept rest left → EntriesKept (old :: rest) (new :: left)

/-- A tree and what turning may make of it. -/
def Reoriented (tree left : Compound) : Prop := EntriesKept tree.entries left.entries

theorem EntryKept.refl (entry : String × Tag) : EntryKept entry entry := ⟨rfl, rfl, fun _ => rfl⟩

theorem EntryKept.trans {old now new : String × Tag} (h : EntryKept old now)
    (hnext : EntryKept now new) : EntryKept old new where
  key := hnext.key.trans h.key
  kind := hnext.kind.trans h.kind
  value hother := (hnext.value (h.key ▸ hother)).trans (h.value hother)

theorem Reoriented.refl (tree : Compound) : tree.Reoriented tree := by
  rcases tree with ⟨entries⟩
  induction entries with
  | nil => exact .added nofun
  | cons entry rest ih => exact .kept (.refl entry) ih

theorem EntriesKept.forall_mem {old new : List (String × Tag)} (h : EntriesKept old new)
    (hold : ∀ entry ∈ old, entry.1 ∈ orientationFields) :
    ∀ entry ∈ new, entry.1 ∈ orientationFields := by
  induction h with
  | added hnew => exact hnew
  | kept hentry _ ih =>
      rcases List.forall_mem_cons.1 hold with ⟨hfirst, hrest⟩
      exact List.forall_mem_cons.2 ⟨hentry.key ▸ hfirst, ih hrest⟩

theorem Reoriented.trans (h : tree.Reoriented left) (hnext : left.Reoriented right) :
    tree.Reoriented right := by
  rcases tree with ⟨old⟩
  rcases left with ⟨now⟩
  rcases right with ⟨new⟩
  change EntriesKept old now at h
  change EntriesKept now new at hnext
  change EntriesKept old new
  -- What the first turn added states an orientation, and so does whatever becomes of it.
  induction h generalizing new with
  | added hnow => exact .added (hnext.forall_mem hnow)
  | kept hentry _ ih =>
      cases hnext with
      | kept hagain hrest => exact .kept (hentry.trans hagain) (ih _ hrest)

/-- A field of the orientation may be added, or get another value of its type. -/
theorem reoriented_insert (hkey : key ∈ orientationFields)
    (hkind : ∀ old, tree.get? key = some old → value.kind = old.kind) :
    tree.Reoriented (tree.insert key value) := by
  rcases tree with ⟨entries⟩
  induction entries with
  | nil => exact .added (List.forall_mem_singleton.2 hkey)
  | cons entry rest ih =>
      rw [OrderedMap.get?_cons] at hkind
      rw [OrderedMap.insert_cons]
      by_cases h : entry.1 = key
      · -- The key has its slot here, so the entries behind it are not touched.
        rw [if_pos h] at hkind ⊢
        exact .kept ⟨h.symm, hkind entry.2 rfl, fun hother => absurd (h ▸ hkey) hother⟩
          (Reoriented.refl ⟨rest⟩)
      · rw [if_neg h] at hkind ⊢
        exact .kept (.refl entry) (ih hkind)

theorem Reoriented.get?_of_not_mem (h : tree.Reoriented left) (hkey : key ∉ orientationFields) :
    left.get? key = tree.get? key := by
  rcases tree with ⟨old⟩
  rcases left with ⟨new⟩
  change EntriesKept old new at h
  induction h with
  | @added new hnew =>
      refine OrderedMap.get?_eq_none_iff.2 fun hmem => ?_
      rcases List.mem_map.1 hmem with ⟨entry, hentry, rfl⟩
      exact hkey (hnew entry hentry)
  | kept hentry _ ih =>
      rw [OrderedMap.get?_cons, OrderedMap.get?_cons, hentry.key, ih]
      split
      · next hsame => rw [hentry.value (hsame ▸ hkey)]
      · rfl

/-- No turn changes the name. -/
theorem Reoriented.getString?_id (h : tree.Reoriented left) :
    left.getString? "id" = tree.getString? "id" := by
  rw [getString?, getAs?, h.get?_of_not_mem (by decide)]
  rfl

end Compound

/-- Only the tree of a cell is turned. -/
structure Cell.Reoriented (cell left : Cell) : Prop where
  id : left.id = cell.id
  data : left.data = cell.data
  tree : Option.Rel Compound.Reoriented cell.tree left.tree

theorem Cell.Reoriented.refl (cell : Cell) : cell.Reoriented cell := by
  refine ⟨rfl, rfl, ?_⟩
  cases cell.tree with
  | none => exact .none
  | some tree => exact .some (.refl tree)

theorem Cell.Reoriented.trans {cell now left : Cell} (h : cell.Reoriented now)
    (hnext : now.Reoriented left) : cell.Reoriented left := by
  refine ⟨hnext.id.trans h.id, hnext.data.trans h.data, ?_⟩
  rcases cell with ⟨_, _, tree⟩
  rcases now with ⟨_, _, tree'⟩
  rcases left with ⟨_, _, tree''⟩
  rcases h with ⟨-, -, htree⟩
  rcases hnext with ⟨-, -, hagain⟩
  cases htree with
  | none => exact hagain
  | some hfirst =>
      cases hagain with
      | some hsecond => exact .some (hfirst.trans hsecond)

/-! ## The bundled hooks -/

namespace Slope

variable {tree : Compound} {slope : Int32} {tag : Int32 → Tag}

theorem kind_of_ofTree (h : ofTree tree = .ok (slope, tag)) {old : Tag}
    (hold : tree.get? field = some old) (next : Int32) : (tag next).kind = old.kind := by
  unfold ofTree at h
  rw [hold] at h
  cases old <;> cases h <;> rfl

theorem reoriented_turnTree (q : Int) (tree : Compound) : tree.Reoriented (turnTree q tree) := by
  unfold turnTree
  cases hstated : ofTree tree with
  | error fault => exact .refl tree
  | ok stated =>
      rcases stated with ⟨slope, tag⟩
      dsimp only
      cases turned? slope (q % 4).toNat with
      | none => exact .refl tree
      | some next =>
          exact Compound.reoriented_insert (by decide) fun old hold => kind_of_ofTree hstated hold next

theorem reoriented_result (rotation : AxisRotation) (tree : Compound) :
    tree.Reoriented (hook.result rotation tree) := by
  rw [result_hook]
  split
  · exact .refl tree
  · exact reoriented_turnTree _ tree

end Slope

namespace Shape

variable {tree : Compound} {s : Shape}

theorem kind_of_byteField {key : String} {v : Int8} (h : byteField tree key = .ok v) {old : Tag}
    (hold : tree.get? key = some old) : old.kind = .byte := by
  unfold byteField at h
  rw [hold] at h
  cases old <;> cases h
  rfl

theorem reoriented_writeTo (h : Shape.ofTree tree = .ok s) (new : Shape) :
    tree.Reoriented (new.writeTo tree) := by
  rcases ofTree_eq_ok_iff.1 h with ⟨hside, hturn⟩
  -- A shape was read, so where one of its fields is there it is a byte already.
  refine (Compound.reoriented_insert (by decide) fun old hold => ?_).trans
    (Compound.reoriented_insert (by decide) fun old hold => ?_)
  · exact (kind_of_byteField hside hold).symm
  · rw [OrderedMap.get?_insert, if_neg (by decide)] at hold
    exact (kind_of_byteField hturn hold).symm

theorem reoriented_turnTree (axis : Axis) (q : Int) (tree : Compound) :
    tree.Reoriented (turnTree axis q tree) := by
  unfold turnTree
  cases hstated : Shape.ofTree tree with
  | error fault => exact .refl tree
  | ok s => exact reoriented_writeTo hstated _

theorem reoriented_result (rotation : AxisRotation) (tree : Compound) :
    tree.Reoriented (hook.result rotation tree) := by
  rw [result_hook]
  split
  · exact .refl tree
  · cases hstated : Shape.ofTree tree with
    | error fault => exact .refl tree
    | ok s => exact reoriented_writeTo hstated _

end Shape

/-! ## Trees and cells -/

/-- A tree after some quarter turns about an axis, as the bundled hooks understand them. Slopes turn
about the vertical axis alone. -/
def Compound.turned (axis : Axis) (q : Int) (tree : Compound) : Compound :=
  if tree.getString? "id" = some Slope.hook.tileEntityId then
    if axis = .y then Slope.turnTree q tree else tree
  else if tree.getString? "id" = some Shape.hook.tileEntityId then Shape.turnTree axis q tree
  else tree

/-- The fields that a tree needs to come back to itself: the slope, or the side and the turn, of
which the turn is less than full. -/
structure Compound.Oriented (tree : Compound) : Prop where
  slope : tree.getString? "id" = some Slope.hook.tileEntityId → tree.contains Slope.field = true
  side : tree.getString? "id" = some Shape.hook.tileEntityId → tree.contains Shape.sideField = true
  turn : tree.getString? "id" = some Shape.hook.tileEntityId →
    tree.contains Shape.turnField = true ∧
      ∀ v, tree.get? Shape.turnField = some (.byte v) → 0 ≤ v ∧ v ≤ 3

/-- A cell without a tree needs nothing. -/
def Cell.Oriented (cell : Cell) : Prop := ∀ tree, cell.tree = some tree → tree.Oriented

namespace Compound

variable {tree : Compound} {axis : Axis} {m n q : Int}

theorem reoriented_turned (axis : Axis) (q : Int) (tree : Compound) :
    tree.Reoriented (tree.turned axis q) := by
  unfold turned
  split
  · split
    · exact Slope.reoriented_turnTree q tree
    · exact .refl tree
  · split
    · exact Shape.reoriented_turnTree axis q tree
    · exact .refl tree

theorem turned_turned (axis : Axis) (m n : Int) (tree : Compound) :
    (tree.turned axis n).turned axis m = tree.turned axis (m + n) := by
  -- A tree keeps its name, so it is the same hook that goes on.
  have hname := (reoriented_turned axis n tree).getString?_id
  rw [turned, hname]
  unfold turned
  split
  · split
    · exact Slope.turnTree_turnTree m n tree
    · rfl
  · split
    · exact Shape.turnTree_turnTree axis m n tree
    · rfl

theorem turned_congr (h : m % 4 = n % 4) (tree : Compound) :
    tree.turned axis m = tree.turned axis n := by
  simp only [turned, Slope.turnTree_congr h, Shape.turnTree_congr h]

theorem Oriented.turned_zero (h : tree.Oriented) (axis : Axis) : tree.turned axis 0 = tree := by
  unfold turned
  split
  · next hname =>
      split
      · exact Slope.turnTree_zero (h.slope hname)
      · rfl
  · split
    · next hname => exact Shape.turnTree_zero axis (h.side hname) (h.turn hname).1 (h.turn hname).2
    · rfl

end Compound

namespace HookChain

variable {rotation : AxisRotation} {tree : Compound} {cell : Cell} {axis : Axis} {q : Int}

/-- The tree that a chain leaves; the same tree if a hook fails. -/
def leaves (c : HookChain) (rotation : AxisRotation) (tree : Compound) : Compound :=
  (turn rotation c.hooks tree).1.getD tree

theorem apply_eq (c : HookChain) (cell : Cell) (rotation : AxisRotation) :
    (c.apply cell rotation).1 =
      if rotation.isIdentity then cell else { cell with tree := cell.tree.map (c.leaves rotation) } := by
  rcases untouched_or_turns cell rotation with huntouched | ⟨tree, htree, hturns⟩
  · rw [c.apply_of_untouched huntouched]
    rcases huntouched with hidentity | hnone
    · rw [if_pos hidentity]
    · rcases cell with ⟨id, data, own⟩
      cases hnone
      exact (ite_self _).symm
  · rw [apply_of_turn htree hturns, if_neg (by simp [hturns]), htree, Option.map_some, leaves]
    cases (turn rotation c.hooks tree).1 with
    | none =>
        rw [Option.getD_none, ← htree]
        rfl
    | some turned => rfl

theorem turn_of_pass {hooks : List Hook} {now : Compound}
    (h : ∀ hook ∈ hooks, now.getString? "id" ≠ some hook.tileEntityId) :
    turn rotation hooks now = (some now, []) := by
  induction hooks with
  | nil => rfl
  | cons hook rest ih =>
      rcases List.forall_mem_cons.1 h with ⟨hfirst, hrest⟩
      rw [turn_cons_of_pass rest hfirst, ih hrest]

/-- If no later hook is for what the first one makes of a tree, that is what is left. -/
theorem leaves_of_first {hook : Hook} {rest : List Hook}
    (hname : tree.getString? "id" = some hook.tileEntityId)
    (hrest : ∀ other ∈ rest,
      (hook.result rotation tree).getString? "id" ≠ some other.tileEntityId) :
    (⟨hook :: rest⟩ : HookChain).leaves rotation tree = hook.result rotation tree := by
  unfold leaves
  cases hanswer : (hook.transform tree rotation).1 with
  | error fault =>
      rw [turn_cons_of_error rest hname hanswer, Hook.result, hanswer]
      rfl
  | ok answer =>
      have hresult : hook.result rotation tree = answer.getD tree := by rw [Hook.result, hanswer]
      rw [turn_cons_of_ok rest hname hanswer, ← hresult, turn_of_pass hrest]
      rfl

/-- Of the bundled hooks, the one that is for a tree turns it alone. -/
theorem leaves_bundled (rotation : AxisRotation) (tree : Compound) :
    bundled.leaves rotation tree =
      if tree.getString? "id" = some Slope.hook.tileEntityId then Slope.hook.result rotation tree
      else if tree.getString? "id" = some Shape.hook.tileEntityId then
        Shape.hook.result rotation tree
      else tree := by
  by_cases hslope : tree.getString? "id" = some Slope.hook.tileEntityId
  · -- A tree that is turned as a slope keeps its name, so it is no shape.
    rw [if_pos hslope]
    refine leaves_of_first hslope fun other hother => ?_
    rw [List.mem_singleton.1 hother, (Slope.reoriented_result rotation tree).getString?_id, hslope]
    decide
  · have hshape : bundled.leaves rotation tree = (⟨[Shape.hook]⟩ : HookChain).leaves rotation tree :=
      congrArg (fun left => left.1.getD tree) (turn_cons_of_pass [Shape.hook] hslope)
    rw [if_neg hslope, hshape]
    by_cases hname : tree.getString? "id" = some Shape.hook.tileEntityId
    · rw [if_pos hname]
      exact leaves_of_first hname nofun
    · rw [if_neg hname, leaves, turn_of_pass (List.forall_mem_singleton.2 hname)]
      rfl

theorem reoriented_leaves_bundled (rotation : AxisRotation) (tree : Compound) :
    tree.Reoriented (bundled.leaves rotation tree) := by
  rw [leaves_bundled]
  split
  · exact Slope.reoriented_result rotation tree
  · split
    · exact Shape.reoriented_result rotation tree
    · exact .refl tree

/-- Whatever the rotation, turning changes nothing but the orientation. -/
theorem reoriented_apply_bundled (rotation : AxisRotation) (cell : Cell) :
    cell.Reoriented (bundled.apply cell rotation).1 := by
  rw [apply_eq]
  split
  · exact .refl cell
  · refine ⟨rfl, rfl, ?_⟩
    cases cell.tree with
    | none => exact .none
    | some tree => exact .some (reoriented_leaves_bundled rotation tree)

/-- About `y` and `z`, a turn is a turn of the tree. -/
theorem leaves_bundled_around (haxis : axis ≠ .x) (h : q % 4 ≠ 0) (tree : Compound) :
    bundled.leaves (.around axis q) tree = tree.turned axis q := by
  have hslope : Slope.hook.result (.around axis q) tree =
      if axis = .y then Slope.turnTree q tree else tree := by
    rw [Slope.result_hook]
    cases axis with
    | x => exact absurd rfl haxis
    | y =>
        have hval : (AxisRotation.around .y q).y.val = (q % 4).toNat := rfl
        rw [hval, if_neg (by omega), if_pos rfl]
        exact Slope.turnTree_congr (by omega) tree
    | z => exact if_pos rfl
  have hshape : Shape.hook.result (.around axis q) tree = Shape.turnTree axis q tree := by
    rw [Shape.result_hook, AxisRotation.isIdentity_around_eq_false h, if_neg Bool.false_ne_true,
      Shape.turnTree]
    simp only [Shape.rotate_around haxis h]
  rw [leaves_bundled, hslope, hshape, Compound.turned]

/-! ## Turns one after the other -/

/-- Turns a cell by one rotation after the other. -/
def applyEach (c : HookChain) (rotations : List AxisRotation) (cell : Cell) : Cell :=
  rotations.foldl (fun cell rotation => (c.apply cell rotation).1) cell

theorem reoriented_applyEach_bundled (rotations : List AxisRotation) (cell : Cell) :
    cell.Reoriented (bundled.applyEach rotations cell) := by
  induction rotations generalizing cell with
  | nil => exact .refl cell
  | cons rotation rest ih => exact (reoriented_apply_bundled rotation cell).trans (ih _)

end HookChain

/-- A cell with its tree turned. -/
def Cell.turned (axis : Axis) (q : Int) (cell : Cell) : Cell :=
  { cell with tree := cell.tree.map (Compound.turned axis q) }

namespace Cell

variable {cell : Cell} {axis : Axis} {m n : Int}

theorem turned_turned (axis : Axis) (m n : Int) (cell : Cell) :
    (cell.turned axis n).turned axis m = cell.turned axis (m + n) := by
  have hcomp : Compound.turned axis m ∘ Compound.turned axis n = Compound.turned axis (m + n) :=
    funext (Compound.turned_turned axis m n)
  simp only [turned, Option.map_map, hcomp]

theorem turned_congr (h : m % 4 = n % 4) (cell : Cell) : cell.turned axis m = cell.turned axis n := by
  have htree : Compound.turned axis m = Compound.turned axis n := funext (Compound.turned_congr h)
  simp only [turned, htree]

theorem Oriented.turned_zero (h : cell.Oriented) (axis : Axis) : cell.turned axis 0 = cell := by
  rcases cell with ⟨id, data, tree⟩
  cases tree with
  | none => rfl
  | some tree =>
      have htree := (h tree rfl).turned_zero axis
      simp only [turned, Option.map_some, htree]

end Cell

namespace HookChain

variable {axis : Axis}

theorem apply_bundled_around (haxis : axis ≠ .x) (cell : Cell) (q : Int) :
    (bundled.apply cell (.around axis q)).1 = if q % 4 = 0 then cell else cell.turned axis q := by
  rw [apply_eq]
  by_cases h : q % 4 = 0
  · rw [if_pos h, if_pos (AxisRotation.isIdentity_around_iff.2 h)]
  · have htree : bundled.leaves (.around axis q) = Compound.turned axis q :=
      funext (leaves_bundled_around haxis h)
    rw [if_neg h, AxisRotation.isIdentity_around_eq_false h, if_neg Bool.false_ne_true, htree]
    rfl

/-- Turns about `y`, and turns about `z`, compose: one after the other, they turn a cell by their
sum. What comes to full turns gives the cell back if it is oriented. No turn changes anything but
the fields of the orientation. -/
theorem bundled_turns_compose (haxis : axis ≠ .x) (turns : List Int) (cell : Cell) :
    (turns.sum % 4 ≠ 0 →
      bundled.applyEach (turns.map (.around axis)) cell =
        (bundled.apply cell (.around axis (turns.sum % 4))).1) ∧
    (turns.sum % 4 = 0 → cell.Oriented →
      bundled.applyEach (turns.map (.around axis)) cell = cell) ∧
    ∀ (before : Cell) (q : Int), before.Reoriented (bundled.apply before (.around axis q)).1 := by
  have heach : bundled.applyEach (turns.map (.around axis)) cell =
      turns.foldl (fun cell q => if q % 4 = 0 then cell else cell.turned axis q) cell := by
    rw [applyEach, List.foldl_map]
    simp only [apply_bundled_around haxis]
  -- Either no step did anything, or the steps were one turn by their sum.
  have hturns := foldl_turns (Cell.turned_turned axis) (fun m n cell h => Cell.turned_congr h cell)
    turns cell
  rw [heach, apply_bundled_around haxis]
  refine ⟨fun hsum => ?_, fun hsum horiented => ?_, fun before q => reoriented_apply_bundled _ before⟩
  · rcases hturns with ⟨hfull, -⟩ | hturned
    · exact absurd hfull hsum
    · rw [hturned, if_neg (by omega)]
      exact Cell.turned_congr (by omega) cell
  · rcases hturns with ⟨-, hstay⟩ | hturned
    · exact hstay
    · rw [hturned, Cell.turned_congr (n := 0) (by omega), horiented.turned_zero]

/-- A shape that hangs from the ceiling. -/
def ceilingCell : Cell where
  id := 1
  tree := some ⟨[("id", .string "gcewing.shape"), ("side", .byte 1), ("turn", .byte 2)]⟩

theorem oriented_ceilingCell : ceilingCell.Oriented := by
  rintro tree ⟨⟩
  refine ⟨by decide, fun _ => by decide, fun _ => ⟨by decide, ?_⟩⟩
  rintro v ⟨⟩
  decide

theorem bundled_turns_compose_ceilingCell :
    bundled.applyEach ([1, 2].map (.around .z)) ceilingCell =
      (bundled.apply ceilingCell (.around .z 3)).1 ∧
    bundled.applyEach ([1, 2, -3].map (.around .z)) ceilingCell = ceilingCell ∧
    ceilingCell.Reoriented (bundled.apply ceilingCell (.around .z 3)).1 := by
  have haxis : Axis.z ≠ .x := by decide
  rcases bundled_turns_compose haxis [1, 2] ceilingCell with ⟨honce, -, hframe⟩
  rcases bundled_turns_compose haxis [1, 2, -3] ceilingCell with ⟨-, hback, -⟩
  exact ⟨honce (by decide), hback (by decide) oriented_ceilingCell, hframe ceilingCell 3⟩

end HookChain

/-! ## Turns about `x` -/

/-- The cell of a shape: its tree has the name of shapes and states this one. -/
def Cell.Shaped (cell : Cell) (s : Shape) : Prop :=
  ∃ tree, cell.tree = some tree ∧ tree.getString? "id" = some Shape.hook.tileEntityId ∧
    s.StatedBy tree

/-- A cell with its shape replaced. -/
def Cell.withShape (s : Shape) (cell : Cell) : Cell :=
  { cell with tree := cell.tree.map s.writeTo }

namespace Cell.Shaped

variable {cell : Cell} {s new : Shape} {axis : Axis}

theorem withShape_self (h : cell.Shaped s) : cell.withShape s = cell := by
  rcases cell with ⟨id, data, own⟩
  rcases h with ⟨tree, ⟨⟩, -, hstated⟩
  rw [Cell.withShape, Option.map_some, hstated.writeTo]

theorem withShape (h : cell.Shaped s) (new : Shape) : (cell.withShape new).Shaped new := by
  rcases h with ⟨tree, htree, hname, hstated⟩
  refine ⟨new.writeTo tree, by rw [Cell.withShape, htree, Option.map_some], ?_,
    Shape.statedBy_writeTo new tree⟩
  rw [(Shape.reoriented_writeTo hstated.ofTree new).getString?_id, hname]

theorem withShape_withShape (last new : Shape) (cell : Cell) :
    (cell.withShape new).withShape last = cell.withShape last := by
  have hcomp : last.writeTo ∘ new.writeTo = last.writeTo := funext (Shape.writeTo_writeTo last new)
  simp only [Cell.withShape, Option.map_map, hcomp]

/-- A cell has one shape. -/
theorem eq_of_shaped (h : cell.Shaped s) (hnew : cell.Shaped new) : s = new := by
  rcases h with ⟨tree, htree, -, hstated⟩
  rcases hnew with ⟨tree', htree', -, hstated'⟩
  cases htree.symm.trans htree'
  exact Except.ok.inj (hstated.ofTree.symm.trans hstated'.ofTree)

theorem withShape_eq_iff (h : cell.Shaped s) {last : Shape} :
    cell.withShape new = cell.withShape last ↔ new = last := by
  refine ⟨fun hsame => ?_, fun hsame => by rw [hsame]⟩
  exact (h.withShape new).eq_of_shaped (hsame ▸ h.withShape last)

theorem apply_bundled (h : cell.Shaped s) (axis : Axis) (q : Int) :
    (HookChain.bundled.apply cell (.around axis q)).1 =
      cell.withShape (s.rotate (.around axis q)) := by
  rw [HookChain.apply_eq]
  by_cases hq : q % 4 = 0
  · rw [if_pos (AxisRotation.isIdentity_around_iff.2 hq), Shape.rotate_of_full hq, h.withShape_self]
  · have hturns : (AxisRotation.around axis q).isIdentity = false :=
      AxisRotation.isIdentity_around_eq_false hq
    rcases h with ⟨tree, htree, hname, hstated⟩
    have hslope : tree.getString? "id" ≠ some Slope.hook.tileEntityId := by
      rw [hname]
      decide
    rw [hturns, if_neg Bool.false_ne_true, Cell.withShape, htree, Option.map_some, Option.map_some,
      HookChain.leaves_bundled, if_neg hslope, if_pos hname, Shape.result_hook, hturns,
      if_neg Bool.false_ne_true, hstated.ofTree]

theorem applyEach_bundled (h : cell.Shaped s) (axis : Axis) (turns : List Int) :
    HookChain.bundled.applyEach (turns.map (.around axis)) cell =
      cell.withShape (turns.foldl (fun s q => s.rotate (.around axis q)) s) := by
  induction turns generalizing cell s with
  | nil => exact h.withShape_self.symm
  | cons q rest ih =>
      have hstep := h.apply_bundled axis q
      have hrest := ih (h.withShape (s.rotate (.around axis q)))
      rw [withShape_withShape, ← hstep] at hrest
      exact hrest

/-- Turns about `x` bring a cell back if the side comes back and the half turns come in pairs. -/
theorem applyEach_bundled_eq_self_iff (h : cell.Shaped s) (hreduced : s.Reduced) {turns : List Int}
    (hfull : turns.sum % 4 = 0) :
    HookChain.bundled.applyEach (turns.map (.around .x)) cell = cell ↔
      Side.landings turns s.side % 2 = 0 := by
  have hstay : s.turned .x turns.sum = s := by
    rw [Shape.turned_congr (n := 0) (by omega), hreduced.turned_zero]
  have hself : HookChain.bundled.applyEach (turns.map (.around .x)) cell = cell ↔
      cell.withShape (s.spin (2 * Side.landings turns s.side)) = cell.withShape s := by
    rw [h.applyEach_bundled, hreduced.foldl_rotate_x, hstay, h.withShape_self]
  rw [hself, h.withShape_eq_iff, hreduced.spin_eq_self_iff]

end Cell.Shaped

namespace HookChain

variable {cell : Cell} {s : Shape}

/-- Turns about `x`, one after the other, are one turn by their sum up to half turns on the side:
each turn that brings the shape to the south side adds one, the turn by the sum too. So these two
are the same where the numbers of landings are both even or both odd. There and back is nothing
where neither end is the south side, and a full circle in quarters is nothing only on the two sides
that stay. -/
theorem bundled_turns_about_x (hshaped : cell.Shaped s) (hreduced : s.Reduced) (turns : List Int) :
    (bundled.apply cell (.around .x turns.sum)).1 =
      cell.withShape (s.rotate (.around .x turns.sum)) ∧
    bundled.applyEach (turns.map (.around .x)) cell =
      cell.withShape ((s.rotate (.around .x turns.sum)).spin
        (2 * (Side.landings turns s.side + Side.landings [turns.sum] s.side))) ∧
    (bundled.applyEach (turns.map (.around .x)) cell =
        (bundled.apply cell (.around .x turns.sum)).1 ↔
      Side.landings turns s.side % 2 = Side.landings [turns.sum] s.side % 2) ∧
    (∀ q, bundled.applyEach ([q, -q].map (.around .x)) cell = cell ↔
      q % 4 = 0 ∨ s.side ≠ .south ∧ s.side.turned .x q ≠ .south) ∧
    (bundled.applyEach ([1, 1, 1, 1].map (.around .x)) cell = cell ↔
      s.side = .west ∨ s.side = .east) := by
  have honce := hreduced.rotate_x turns.sum
  -- Step by step or at once, the side goes the same way; what may differ are the half turns.
  have hspun : turns.foldl (fun s q => s.rotate (.around .x q)) s =
      (s.rotate (.around .x turns.sum)).spin
        (2 * ((Side.landings turns s.side + Side.landings [turns.sum] s.side : Nat) : Int)) := by
    rw [hreduced.foldl_rotate_x, honce, Shape.spin_spin]
    exact Shape.spin_congr (by push_cast; omega)
  have hagain : (s.rotate (.around .x turns.sum)).Reduced := honce ▸ Shape.reduced_spin _ _
  refine ⟨hshaped.apply_bundled .x turns.sum, ?_, ?_, fun q => ?_, ?_⟩
  · rw [hshaped.applyEach_bundled, hspun, Nat.cast_add]
  · rw [hshaped.applyEach_bundled, hshaped.apply_bundled, hshaped.withShape_eq_iff, hspun,
      hagain.spin_eq_self_iff]
    omega
  · rw [hshaped.applyEach_bundled_eq_self_iff hreduced (by simp)]
    exact Side.landings_there_and_back q s.side
  · rw [hshaped.applyEach_bundled_eq_self_iff hreduced (by decide)]
    exact Side.landings_full_circle s.side

/-- A shape on the floor. -/
def floorCell : Cell where
  id := 1
  tree := some ⟨[("id", .string "gcewing.shape"), ("side", .byte 0), ("turn", .byte 0)]⟩

theorem shaped_floorCell : floorCell.Shaped ⟨.down, 0⟩ := ⟨_, rfl, rfl, rfl, rfl⟩

theorem bundled_turns_about_x_floorCell :
    bundled.applyEach ([1, 1].map (.around .x)) floorCell =
      (bundled.apply floorCell (.around .x 2)).1 ∧
    bundled.applyEach ([2, -2].map (.around .x)) floorCell = floorCell ∧
    bundled.applyEach ([1, -1].map (.around .x)) floorCell = floorCell := by
  have hreduced : (⟨.down, 0⟩ : Shape).Reduced := by decide
  rcases bundled_turns_about_x shaped_floorCell hreduced [1, 1] with ⟨-, -, honce, hback, -⟩
  exact ⟨honce.2 (by decide), (hback 2).2 (by decide), (hback 1).2 (by decide)⟩

/-- A full circle in quarters leaves a shape on the floor the wrong way round. -/
theorem floorCell_not_restored :
    floorCell.Shaped ⟨.down, 0⟩ ∧
    bundled.applyEach ([1, 1, 1, 1].map (.around .x)) floorCell =
      floorCell.withShape ⟨.down, 2⟩ ∧
    (bundled.apply floorCell (.around .x [1, 1, 1, 1].sum)).1 = floorCell ∧
    bundled.applyEach ([1, 1, 1, 1].map (.around .x)) floorCell ≠
      (bundled.apply floorCell (.around .x [1, 1, 1, 1].sum)).1 := by
  refine ⟨shaped_floorCell, rfl, rfl, fun hsame => ?_⟩
  have hagain : floorCell.withShape ⟨.down, 2⟩ = floorCell := hsame
  have hshape := (shaped_floorCell.withShape ⟨.down, 2⟩).eq_of_shaped (hagain ▸ shaped_floorCell)
  revert hshape
  decide

end HookChain

end VoxelSchematic
