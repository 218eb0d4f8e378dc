import VoxelSchematic.Proofs.Schematic.Refilling
import VoxelSchematic.Proofs.Wire.RoundTrip

/-!
# Lists have elements of one type

* `TagList.pushInPlace_eq`: an element is appended in its place, or the list stays as it was.
* `TagList.Reached` is what any run of the operations leaves, refused elements included, and
  `TagList.Reached.uniform` says that all elements of such a list have the declared type.
* Decoding and the rewriting of numbers make lists without a check. `Wire.uniform_of_decode` and
  `Compound.uniform_rewriteIds` say that these are uniform at every depth.
-/

namespace VoxelSchematic

open Ieee

namespace TagList

variable {l l' : TagList} {tag : Tag} {element : TagType} {items : List Tag} {fault : TagError}

/-! ## Building -/

theorem ofItems_eq_ok_iff : ofItems element items = .ok l ↔ l = ⟨element, items⟩ ∧ l.Uniform := by
  constructor
  · intro h
    refine ⟨?_, uniform_of_ofItems h⟩
    unfold ofItems at h
    split at h
    · cases h
    · exact (Except.ok.inj h).symm
  · rintro ⟨rfl, huniform⟩
    have hnone : items.find? (fun tag => tag.kind != element) = none :=
      List.find?_eq_none.2 fun tag htag => by simpa using huniform tag htag
    rw [ofItems, hnone]

/-- The first element of another type is named. -/
theorem ofItems_eq_error_iff : ofItems element items = .error fault ↔
    ∃ before stray behind, items = before ++ stray :: behind ∧
      (∀ tag ∈ before, tag.kind = element) ∧ stray.kind ≠ element ∧
        fault = .listElementMismatch element stray.kind := by
  have hfound : ∀ stray, items.find? (fun tag => tag.kind != element) = some stray ↔
      stray.kind ≠ element ∧ ∃ before behind, items = before ++ stray :: behind ∧
        ∀ tag ∈ before, tag.kind = element := by
    intro stray
    simp [List.find?_eq_some_iff_append]
  constructor
  · intro h
    unfold ofItems at h
    split at h
    · next stray hstray =>
        rcases (hfound stray).1 hstray with ⟨hkind, before, behind, hsplit, hbefore⟩
        exact ⟨before, stray, behind, hsplit, hbefore, hkind, (Except.error.inj h).symm⟩
    · cases h
  · rintro ⟨before, stray, behind, hsplit, hbefore, hkind, rfl⟩
    rw [ofItems, (hfound stray).2 ⟨hkind, before, behind, hsplit, hbefore⟩]

/-! ## Appending -/

/-- Appending in its place is appending, and an element that is refused changes nothing. -/
theorem pushInPlace_eq (tag : Tag) (l : TagList) :
    pushInPlace tag l =
      match l.push tag with
      | .ok l' => .ok () l'
      | .error fault => .error fault l := by
  have hpush : l.push tag = if tag.kind = l.admits tag then .ok ⟨l.admits tag, l.items ++ [tag]⟩
      else .error (.listElementMismatch (l.admits tag) tag.kind) := rfl
  rw [hpush, admits]
  change (if (l.items.isEmpty && l.element == .terminator) = true then _ else _ :
    EStateM TagError TagList Unit) _ = _
  by_cases hopen : (l.items.isEmpty && l.element == .terminator) = true
  -- The type is taken first, so that the check finds nothing wrong.
  · rw [if_pos hopen, if_pos hopen, if_pos rfl]
    change (if tag.kind ≠ tag.kind then _ else _ : EStateM TagError TagList Unit) _ = _
    rw [if_neg (not_not_intro rfl)]
    rfl
  · rw [if_neg hopen, if_neg hopen]
    change (if tag.kind ≠ l.element then _ else _ : EStateM TagError TagList Unit) _ = _
    by_cases hkind : tag.kind = l.element
    · rw [if_neg (not_not_intro hkind), if_pos hkind]
      rfl
    · rw [if_pos hkind, if_neg hkind]
      rfl

theorem pushInPlace_eq_ok_iff : pushInPlace tag l = .ok () l' ↔
    tag.kind = l.admits tag ∧ l' = ⟨l.admits tag, l.items ++ [tag]⟩ := by
  rw [pushInPlace_eq, push]
  by_cases hkind : tag.kind = l.admits tag
  · simp [hkind, eq_comm]
  · simp [hkind]

theorem pushInPlace_eq_error_iff : pushInPlace tag l = .error fault l' ↔
    tag.kind ≠ l.admits tag ∧ fault = .listElementMismatch (l.admits tag) tag.kind ∧ l' = l := by
  rw [pushInPlace_eq, push]
  by_cases hkind : tag.kind = l.admits tag
  · simp [hkind]
  · simp [hkind, eq_comm]

theorem Uniform.pushInPlace (h : l.Uniform) (hpush : pushInPlace tag l = .ok () l') : l'.Uniform := by
  rcases pushInPlace_eq_ok_iff.1 hpush with ⟨hkind, rfl⟩
  have hmade : l.push tag = .ok ⟨l.admits tag, l.items ++ [tag]⟩ := if_pos hkind
  exact h.push hmade

/-! ## Rewriting -/

/-- Elements that are rewritten keep their types. -/
theorem kind_rewriteElements {σ : Type} (f : Compound → StateM σ Compound) (items : List Tag) (s : σ) :
    ((items.mapM (rewriteElement f)).run s).1.map Tag.kind = items.map Tag.kind := by
  induction items generalizing s with
  | nil => rfl
  | cons tag rest ih =>
      rw [List.mapM_cons]
      cases tag with
      | compound fields => exact congrArg (TagType.compound :: ·) (ih _)
      | _ => exact congrArg (_ :: ·) (ih s)

theorem Uniform.mapCompoundsM {σ : Type} (h : l.Uniform) (f : Compound → StateM σ Compound) (s : σ) :
    ((l.mapCompoundsM f).run s).1.Uniform := by
  have hkinds : ((l.mapCompoundsM f).run s).1.items.map Tag.kind = l.items.map Tag.kind :=
    kind_rewriteElements f l.items s
  intro tag htag
  have hkind := List.mem_map_of_mem (f := Tag.kind) htag
  rw [hkinds] at hkind
  rcases List.mem_map.1 hkind with ⟨before, hbefore, hsame⟩
  exact hsame.symm.trans (h before hbefore)

/-- Without a state this is what `mapCompounds` does. -/
theorem mapCompoundsM_pure {m : Type → Type} [Monad m] [LawfulMonad m] (f : Compound → Compound)
    (l : TagList) : l.mapCompoundsM (fun fields => (pure (f fields) : m Compound)) =
      pure (l.mapCompounds f) := by
  have hitems : ∀ items : List Tag,
      items.mapM (rewriteElement fun fields => (pure (f fields) : m Compound)) =
        pure (mapCompounds ⟨l.element, items⟩ f).items := by
    intro items
    induction items with
    | nil => rfl
    | cons tag rest ih =>
        rw [List.mapM_cons, ih]
        cases tag <;> simp [rewriteElement, mapCompounds]
  rw [mapCompoundsM, hitems, pure_bind]
  rfl

/-! ## Runs of operations -/

/-- What any run of the operations on lists leaves. -/
inductive Reached : TagList → Prop
  | empty (element : TagType) : Reached (empty element)
  | ofItems {element : TagType} {items : List Tag} {l : TagList} :
      ofItems element items = .ok l → Reached l
  | infer {items : List Tag} {l : TagList} : infer items = .ok l → Reached l
  | ofCompounds (items : List Compound) : Reached (ofCompounds items)
  | ofDoubles (values : List Binary64) : Reached (ofDoubles values)
  | ofFloats (values : List Binary32) : Reached (ofFloats values)
  | push {l l' : TagList} {tag : Tag} : Reached l → pushInPlace tag l = .ok () l' → Reached l'
  /-- A list is still there after it has refused an element. -/
  | refuse {l l' : TagList} {tag : Tag} {fault : TagError} :
      Reached l → pushInPlace tag l = .error fault l' → Reached l'
  | mapCompounds {l : TagList} {σ : Type} (f : Compound → StateM σ Compound) (s : σ) :
      Reached l → Reached ((l.mapCompoundsM f).run s).1

theorem uniform_ofDoubles (values : List Binary64) : (ofDoubles values).Uniform := by
  intro tag htag
  rcases List.mem_map.1 htag with ⟨value, -, rfl⟩
  rfl

theorem uniform_ofFloats (values : List Binary32) : (ofFloats values).Uniform := by
  intro tag htag
  rcases List.mem_map.1 htag with ⟨value, -, rfl⟩
  rfl

theorem Reached.uniform (h : l.Reached) : l.Uniform := by
  induction h with
  | empty element => exact uniform_empty element
  | ofItems hmade => exact uniform_of_ofItems hmade
  | infer hmade => exact uniform_of_ofItems hmade
  | ofCompounds items => exact uniform_ofCompounds items
  | ofDoubles values => exact uniform_ofDoubles values
  | ofFloats values => exact uniform_ofFloats values
  | push _ hpush ih => exact ih.pushInPlace hpush
  | refuse _ hpush ih =>
      rcases pushInPlace_eq_error_iff.1 hpush with ⟨-, -, rfl⟩
      exact ih
  | mapCompounds f s _ ih => exact ih.mapCompoundsM f s

end TagList

/-! ## Lists without a check -/

namespace IdField

/-- The traversal rewrites a list by its compounds. -/
theorem rewriteValue_list {m : Type → Type} [Monad m] [LawfulMonad m]
    (visitor : IdKind → UInt16 → m UInt16) (held : Option IdKind) (l : TagList) :
    rewriteValue visitor held (.list l) = Tag.list <$> l.mapCompoundsM (rewriteTree visitor) := by
  have hitems : ∀ items, rewriteItems visitor items =
      items.mapM (TagList.rewriteElement (rewriteTree visitor)) := by
    intro items
    induction items with
    | nil => simp [rewriteItems]
    | cons tag rest ih =>
        rw [List.mapM_cons, ← ih]
        cases tag <;> simp [rewriteItems, TagList.rewriteElement]
  rw [rewriteValue, TagList.mapCompoundsM, hitems, map_bind]
  simp only [map_pure]

end IdField

namespace Tag

theorem kind_blank (tag : Tag) : tag.blank.kind = tag.kind := by
  cases tag <;> rfl

/-- Whether lists are uniform can be seen without the values of numbers. -/
theorem uniform_blank_iff {tag : Tag} :
    tag.blank.Everywhere UniformNode ↔ tag.Everywhere UniformNode := by
  induction tag using byLayers with
  | layer tag ih =>
      cases tag with
      | list l =>
          rcases l with ⟨element, items⟩
          rw [blank, blankItems_eq_map, everywhere_list, everywhere_list, List.forall_mem_map]
          refine and_congr ?_ (forall₂_congr fun item hitem => ih item hitem)
          simp only [UniformNode, TagList.Uniform, List.forall_mem_map, kind_blank]
      | compound fields =>
          rcases fields with ⟨entries⟩
          rw [blank, blankFields_eq_map, everywhere_compound, everywhere_compound,
            List.forall_mem_map]
          exact and_congr Iff.rfl
            (forall₂_congr fun entry hentry => ih entry.2 (List.mem_map_of_mem hentry))
      | short v => exact iff_of_true ((everywhere_leaf rfl).2 trivial) ((everywhere_leaf rfl).2 trivial)
      | int v => exact iff_of_true ((everywhere_leaf rfl).2 trivial) ((everywhere_leaf rfl).2 trivial)
      | _ => exact Iff.rfl

end Tag

theorem Compound.uniform_refilled {tree : Compound}
    (h : Tag.Everywhere Tag.UniformNode (.compound tree)) (answers : List UInt16) :
    Tag.Everywhere Tag.UniformNode (.compound (tree.refilled answers)) := by
  have hblank := IdField.blank_settle (List.zipWith IdPlace.answered tree.idPlaces answers)
    (.compound tree)
  rw [settle_compound] at hblank
  rw [← Tag.uniform_blank_iff, refilled, hblank, Tag.uniform_blank_iff]
  exact h

/-- Whatever numbers a visitor puts into a tree, its lists stay uniform. -/
theorem Compound.uniform_rewriteIds {σ : Type} {tree : Compound}
    (h : Tag.Everywhere Tag.UniformNode (.compound tree))
    (visitor : IdKind → UInt16 → StateM σ UInt16) (s : σ) :
    Tag.Everywhere Tag.UniformNode (.compound ((tree.rewriteIds visitor).run s).1) := by
  rw [rewriteIds_eq]
  exact uniform_refilled h _

theorem Wire.uniform_of_decode {input rest : List UInt8} {name : String} {root : Tag}
    (read : decode input = .ok (name, root) rest) : root.Everywhere Tag.UniformNode := by
  rcases decode_eq_ok_iff.1 read with ⟨raw, htranscript, rfl⟩
  rcases transcribe_eq_ok_iff.1 htranscript with ⟨hspelled, -⟩
  exact (everywhere_legible_iff.1 hspelled.settled.legible).1

/-! ## Every list -/

/-- Every list is homogeneous: one that a run of operations leaves, and any inside a tree that was
decoded, or in which numbers were rewritten. Elements are refused if one is of another type than the
list declares, or than it would have taken from the element itself; the error names the first such
element, and a list that refuses one stays as it is. -/
theorem TagList.homogeneous :
    (∀ l : TagList, l.Reached → l.Uniform) ∧
    (∀ input name root rest, Wire.decode input = .ok (name, root) rest →
      root.Everywhere Tag.UniformNode) ∧
    (∀ (σ : Type) (tree : Compound) (visitor : IdKind → UInt16 → StateM σ UInt16) (s : σ),
      Tag.Everywhere Tag.UniformNode (.compound tree) →
        Tag.Everywhere Tag.UniformNode (.compound ((tree.rewriteIds visitor).run s).1)) ∧
    (∀ element items l, ofItems element items = .ok l ↔ l = ⟨element, items⟩ ∧ l.Uniform) ∧
    (∀ element items fault, ofItems element items = .error fault ↔
      ∃ before stray behind, items = before ++ stray :: behind ∧
        (∀ tag ∈ before, tag.kind = element) ∧ stray.kind ≠ element ∧
          fault = .listElementMismatch element stray.kind) ∧
    (∀ tag l l', pushInPlace tag l = .ok () l' ↔
      tag.kind = l.admits tag ∧ l' = ⟨l.admits tag, l.items ++ [tag]⟩) ∧
    ∀ tag l l' fault, pushInPlace tag l = .error fault l' ↔
      tag.kind ≠ l.admits tag ∧ fault = .listElementMismatch (l.admits tag) tag.kind ∧ l' = l :=
  ⟨fun _ hreached => hreached.uniform, fun _ _ _ _ hread => Wire.uniform_of_decode hread,
    fun _ _ visitor s htree => Compound.uniform_rewriteIds htree visitor s,
    fun _ _ _ => ofItems_eq_ok_iff, fun _ _ _ => ofItems_eq_error_iff,
    fun _ _ _ => pushInPlace_eq_ok_iff, fun _ _ _ _ => pushInPlace_eq_error_iff⟩

/-- A list that has taken the type of its first element. -/
def TagList.shorts : TagList := ⟨.short, [.short 1]⟩

theorem TagList.reached_shorts : shorts.Reached :=
  .push (.empty .terminator) (pushInPlace_eq_ok_iff.2 ⟨rfl, rfl⟩ : pushInPlace (.short 1) _ = _)

theorem TagList.everywhere_shorts : Tag.Everywhere Tag.UniformNode (.list shorts) := by
  refine Tag.everywhere_list.2 ⟨reached_shorts.uniform, List.forall_mem_singleton.2 ?_⟩
  exact (Tag.everywhere_leaf rfl).2 trivial

theorem TagList.homogeneous_shorts :
    shorts.Uniform ∧ Tag.Everywhere Tag.UniformNode (.list ⟨.byte, [.byte 5]⟩) ∧
    Tag.Everywhere Tag.UniformNode
      (.compound ((Compound.rewriteIds Compound.number ⟨[("Items", .list shorts)]⟩).run 100).1) ∧
    ofItems .short [.short 1, .byte 2, .int 3] = .error (.listElementMismatch .short .byte) ∧
    pushInPlace (.byte 2) shorts = .error (.listElementMismatch .short .byte) shorts := by
  rcases homogeneous with ⟨hreached, hdecode, hrewrite, -, hitems, -, hpush⟩
  have hread : Wire.decode [9, 0, 0, 1, 0, 0, 0, 1, 5] =
      .ok ("", .list ⟨.byte, [.byte 5]⟩) [] := by cbv
  have htree : Tag.Everywhere Tag.UniformNode (.compound ⟨[("Items", .list shorts)]⟩) :=
    Tag.everywhere_compound.2 ⟨trivial, List.forall_mem_singleton.2 everywhere_shorts⟩
  have hkind : Tag.kind (.byte 2) ≠ .short := by decide
  refine ⟨hreached shorts reached_shorts, hdecode _ _ _ _ hread,
    hrewrite _ _ Compound.number 100 htree,
    (hitems _ _ _).2 ⟨[.short 1], .byte 2, [.int 3], rfl, List.forall_mem_singleton.2 rfl, hkind, rfl⟩,
    (hpush _ _ _ _).2 ⟨hkind, rfl, rfl⟩⟩

end VoxelSchematic
