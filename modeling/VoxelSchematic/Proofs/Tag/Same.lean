import VoxelSchematic.Proofs.Ieee.Same
import VoxelSchematic.Proofs.Tag.Built
import VoxelSchematic.Tag.Equality

/-!
# Equal trees look alike

* `Tag.SameForm` lists the forms in which two trees can be equal as values.
* `Compound.same_iff` says that compounds without repeated names are equal if they answer every
  look-up with equal trees.
* `Tag.Twins` says of two trees that they are equal and that neither repeats a name anywhere. The
  look-ups do not tell twins apart, and the operations make twins of them.
-/

namespace VoxelSchematic

/-! ## Related options -/

section

variable {α β γ : Type} {R S : α → β → Prop} {T : γ → γ → Prop} {found : Option α}
  {found' : Option β} {v : α} {v' : β}

/-- Neither is there, or both are, and related. -/
theorem rel_cases (h : Option.Rel R found found') :
    (found = none ∧ found' = none) ∨ ∃ v v', found = some v ∧ found' = some v' ∧ R v v' := by
  cases h with
  | none => exact .inl ⟨rfl, rfl⟩
  | some hv => exact .inr ⟨_, _, rfl, rfl, hv⟩

theorem isSome_eq_of_rel (h : Option.Rel R found found') : found.isSome = found'.isSome := by
  cases h with
  | none => rfl
  | some _ => rfl

theorem rel_of_rel (h : Option.Rel R found found')
    (hS : ∀ v v', found = some v → found' = some v' → R v v' → S v v') :
    Option.Rel S found found' := by
  cases h with
  | none => exact .none
  | some hv => exact .some (hS _ _ rfl rfl hv)

theorem rel_flip_of {S : β → α → Prop} (h : Option.Rel R found found')
    (hflip : ∀ v v', found = some v → R v v' → S v' v) : Option.Rel S found' found := by
  cases h with
  | none => exact .none
  | some hv => exact .some (hflip _ _ rfl hv)

theorem rel_trans_of {R : α → β → Prop} {S : β → γ → Prop} {T : α → γ → Prop} {last : Option γ}
    (h : Option.Rel R found found') (hnext : Option.Rel S found' last)
    (htrans : ∀ v v' v'', found = some v → R v v' → S v' v'' → T v v'') : Option.Rel T found last := by
  cases h with
  | none =>
      cases hnext with
      | none => exact .none
  | some hv =>
      cases hnext with
      | some hv' => exact .some (htrans _ _ _ rfl hv hv')

theorem exists_of_rel_some (h : Option.Rel R (some v) found') : ∃ v', found' = some v' ∧ R v v' := by
  cases h with
  | some hv => exact ⟨_, rfl, hv⟩

theorem exists_of_rel_some_right (h : Option.Rel R found (some v')) : ∃ v, found = some v ∧ R v v' := by
  cases h with
  | some hv => exact ⟨_, rfl, hv⟩

theorem rel_bind {next : α → Option γ} {next' : β → Option γ} (h : Option.Rel R found found')
    (hnext : ∀ v v', R v v' → Option.Rel T (next v) (next' v')) :
    Option.Rel T (found.bind next) (found'.bind next') := by
  cases h with
  | none => exact .none
  | some hv => exact hnext _ _ hv

theorem rel_map {f : α → γ} {g : β → γ} (h : Option.Rel R found found')
    (hfg : ∀ v v', R v v' → T (f v) (g v')) : Option.Rel T (found.map f) (found'.map g) := by
  cases h with
  | none => exact .none
  | some hv => exact .some (hfg _ _ hv)

/-- What is found, and otherwise what stands in for it. -/
theorem rel_getD {default : γ} {option option' : Option γ} (h : Option.Rel T option option')
    (hdefault : T default default) : T (option.getD default) (option'.getD default) := by
  cases h with
  | none => exact hdefault
  | some hv => exact hv

theorem rel_getElem? {items : List α} {items' : List β} (h : List.Forall₂ R items items')
    (i : Nat) : Option.Rel R items[i]? items'[i]? := by
  induction h generalizing i with
  | nil => exact .none
  | cons hst _ ih =>
      cases i with
      | zero => exact .some hst
      | succ i => exact ih i

end

/-! ## Equal trees -/

/-- The trees are equal as values. -/
abbrev Tag.Same (s t : Tag) : Prop := s.same t = true

/-- The compounds are equal as values. -/
abbrev Compound.Same (a b : Compound) : Prop := a.same b = true

namespace Tag

variable {α : Type} {s t : Tag} {l l' : TagList}

theorem sameItems_iff {items others : List Tag} :
    sameItems items others = true ↔ List.Forall₂ Same items others := by
  induction items generalizing others with
  | nil =>
      cases others with
      | nil => simp [sameItems]
      | cons t rest => simp [sameItems]
  | cons s items ih =>
      cases others with
      | nil => simp [sameItems]
      | cons t rest => simp [sameItems, ih]

theorem same_list_iff :
    Same (.list l) (.list l') ↔ l.element = l'.element ∧ List.Forall₂ Same l.items l'.items := by
  rcases l with ⟨element, items⟩
  simp [Same, Tag.same, sameItems_iff]

theorem same_compound_iff {a b : Compound} : Same (.compound a) (.compound b) ↔ a.Same b := by
  rcases a with ⟨entries⟩
  simp [Same, Compound.Same, Tag.same, Compound.same, OrderedMap.size]

/-- The forms in which two trees can be equal: both are lists, both are compounds, both are numbers
that compare as equal, or they are one tree without children. -/
inductive SameForm : Tag → Tag → Prop
  | list (l l' : TagList) : SameForm (.list l) (.list l')
  | compound (a b : Compound) : SameForm (.compound a) (.compound b)
  | float {x y : Ieee.Binary32} : x.same y = true → SameForm (.float x) (.float y)
  | double {x y : Ieee.Binary64} : x.same y = true → SameForm (.double x) (.double y)
  | leaf {tag : Tag} : tag.kind ≠ .list → tag.kind ≠ .compound → SameForm tag tag

/-- What is neither a float nor has children is compared as data. -/
theorem Same.eq_of_kind (h : Same s t) (hlist : s.kind ≠ .list) (hcompound : s.kind ≠ .compound)
    (hfloat : s.kind ≠ .float) (hdouble : s.kind ≠ .double) : s = t := by
  cases s with
  | list l => exact absurd rfl hlist
  | compound a => exact absurd rfl hcompound
  | float x => exact absurd rfl hfloat
  | double x => exact absurd rfl hdouble
  | _ => cases t <;> simp_all [Same, Tag.same]

theorem Same.form (h : Same s t) : SameForm s t := by
  cases s with
  | list l =>
      cases t with
      | list l' => exact .list l l'
      | _ => simp [Same, Tag.same] at h
  | compound a =>
      cases t with
      | compound b => exact .compound a b
      | _ => simp [Same, Tag.same] at h
  | float x =>
      cases t with
      | float y => exact .float (by simpa [Same, Tag.same] using h)
      | _ => simp [Same, Tag.same] at h
  | double x =>
      cases t with
      | double y => exact .double (by simpa [Same, Tag.same] using h)
      | _ => simp [Same, Tag.same] at h
  | _ =>
      rw [← h.eq_of_kind (by simp [kind]) (by simp [kind]) (by simp [kind]) (by simp [kind])]
      exact .leaf (by simp [kind]) (by simp [kind])

theorem Same.kind_eq (h : Same s t) : s.kind = t.kind := by
  cases h.form with
  | list l l' => rfl
  | compound a b => rfl
  | float hxy => rfl
  | double hxy => rfl
  | leaf _ _ => rfl

/-- What reads neither floats nor anything that has children. -/
structure ReadsPlain (read : Tag → Option α) : Prop where
  list : ∀ l, read (.list l) = none
  compound : ∀ fields, read (.compound fields) = none
  float : ∀ x, read (.float x) = none
  double : ∀ x, read (.double x) = none

theorem readsPlain_asShort? : ReadsPlain asShort? :=
  ⟨fun _ => rfl, fun _ => rfl, fun _ => rfl, fun _ => rfl⟩

theorem readsPlain_asInt? : ReadsPlain asInt? :=
  ⟨fun _ => rfl, fun _ => rfl, fun _ => rfl, fun _ => rfl⟩

theorem readsPlain_asString? : ReadsPlain asString? :=
  ⟨fun _ => rfl, fun _ => rfl, fun _ => rfl, fun _ => rfl⟩

theorem readsPlain_asByteArray? : ReadsPlain asByteArray? :=
  ⟨fun _ => rfl, fun _ => rfl, fun _ => rfl, fun _ => rfl⟩

/-- A plain reading cannot tell equal trees apart. -/
theorem ReadsPlain.eq_of_same {read : Tag → Option α} (hread : ReadsPlain read) (h : Same s t) :
    read s = read t := by
  cases h.form with
  | list l l' => exact (hread.list l).trans (hread.list l').symm
  | compound a b => exact (hread.compound a).trans (hread.compound b).symm
  | @float x y _ => exact (hread.float x).trans (hread.float y).symm
  | @double x y _ => exact (hread.double x).trans (hread.double y).symm
  | leaf _ _ => rfl

/-- Equal trees are equal numbers, if they are numbers at all. -/
theorem Same.toFloat? (h : Same s t) :
    Option.Rel (fun x y => x.same y = true) s.toFloat? t.toFloat? := by
  have hint : ∀ tag : Tag, Option.Rel (fun x y : Ieee.Binary64 => x.same y = true)
      (tag.toInteger?.map fun n => .ofInt n.toInt) (tag.toInteger?.map fun n => .ofInt n.toInt) := by
    intro tag
    cases tag.toInteger? with
    | none => exact .none
    | some n => exact .some (Ieee.Binary64.same_ofInt n.toInt)
  cases h.form with
  | list l l' => exact .none
  | compound a b => exact .none
  -- Zero has two forms, so that equal floats need not be the same word.
  | float hxy => exact .some (Ieee.Binary32.same_widen hxy)
  | double hxy => exact .some hxy
  | leaf _ _ =>
      cases s with
      | float x => exact .some (Ieee.Binary32.same_widen (by simpa [Same, Tag.same] using h))
      | double x => exact .some (by simpa [Same, Tag.same] using h)
      | byte value => exact hint (.byte value)
      | short value => exact hint (.short value)
      | int value => exact hint (.int value)
      | long value => exact hint (.long value)
      | _ => exact .none

end Tag

namespace Compound

variable {a b : Compound}

theorem sameFields_iff {entries : List (String × Tag)} :
    sameFields entries b = true ↔
      ∀ entry ∈ entries, ∃ t, b.get? entry.1 = some t ∧ entry.2.Same t := by
  induction entries with
  | nil => simp [sameFields]
  | cons entry rest ih =>
      rcases entry with ⟨key, tag⟩
      rw [List.forall_mem_cons, ← ih, sameFields]
      cases b.get? key with
      | none => simp
      | some t => simp

theorem same_iff_size : a.Same b ↔
    a.size = b.size ∧ ∀ entry ∈ a.entries, ∃ t, b.get? entry.1 = some t ∧ entry.2.Same t := by
  simp [Same, Compound.same, sameFields_iff]

theorem length_keys (c : Compound) : c.keys.length = c.size := List.length_map ..

/-- Compounds without repeated names are equal if they answer every look-up with equal trees. -/
theorem same_iff (ha : a.Distinct) (hb : b.Distinct) :
    a.Same b ↔ ∀ key, Option.Rel Tag.Same (a.get? key) (b.get? key) := by
  rw [same_iff_size]
  constructor
  · rintro ⟨hsize, hfields⟩ key
    have hsub : a.keys ⊆ b.keys := by
      intro name hname
      rcases List.mem_map.1 hname with ⟨entry, hentry, rfl⟩
      rcases hfields entry hentry with ⟨t, ht, -⟩
      by_contra hnone
      rw [OrderedMap.get?_eq_none_iff.2 hnone] at ht
      cases ht
    -- As many names of which all are names of the other are all names of the other.
    have hperm : a.keys.Perm b.keys :=
      (ha.subperm hsub).perm_of_length_le (by rw [length_keys, length_keys, hsize])
    cases hget : a.get? key with
    | none =>
        have hnone : key ∉ b.keys :=
          fun hmem => OrderedMap.get?_eq_none_iff.1 hget (hperm.mem_iff.2 hmem)
        rw [OrderedMap.get?_eq_none_iff.2 hnone]
        exact .none
    | some s =>
        rcases hfields (key, s) (OrderedMap.mem_of_get? hget) with ⟨t, ht, hst⟩
        rw [ht]
        exact .some hst
  · intro h
    have hkeys : ∀ key, key ∈ a.keys ↔ key ∈ b.keys := by
      intro key
      rw [← not_iff_not, ← OrderedMap.get?_eq_none_iff, ← OrderedMap.get?_eq_none_iff]
      rcases rel_cases (h key) with ⟨hs, ht⟩ | ⟨s, t, hs, ht, -⟩
      · simp [hs, ht]
      · simp [hs, ht]
    refine ⟨?_, fun entry hentry => ?_⟩
    · rw [← length_keys, ← length_keys]
      exact ((List.perm_ext_iff_of_nodup ha hb).2 hkeys).length_eq
    · have hrel := h entry.1
      rw [OrderedMap.get?_of_mem ha hentry] at hrel
      exact exists_of_rel_some hrel

end Compound

/-! ## Twins -/

namespace Tag

/-- The trees are equal as values, and no compound in either of them repeats a name. -/
structure Twins (s t : Tag) : Prop where
  same : s.Same t
  left : s.Everywhere DistinctNode
  right : t.Everywhere DistinctNode

end Tag

/-- As `Tag.Twins`, for compounds. -/
abbrev Compound.Twins (a b : Compound) : Prop := Tag.Twins (.compound a) (.compound b)

namespace Tag

variable {s t : Tag} {l l' : TagList}

/-- Equal trees that can be made are twins. -/
theorem Built.twins (hs : s.Built) (ht : t.Built) (h : s.Same t) : s.Twins t :=
  ⟨h, hs.regular.distinct, ht.regular.distinct⟩

theorem twins_leaf (h : Same s s) (hlist : s.kind ≠ .list) (hcompound : s.kind ≠ .compound) :
    Twins s s :=
  have hdistinct := (regular_leaf hlist hcompound).distinct
  ⟨h, hdistinct, hdistinct⟩

theorem forall₂_twins_iff {items others : List Tag} :
    List.Forall₂ Twins items others ↔ List.Forall₂ Same items others ∧
      (∀ tag ∈ items, tag.Everywhere DistinctNode) ∧
        ∀ tag ∈ others, tag.Everywhere DistinctNode := by
  constructor
  · intro h
    induction h with
    | nil => exact ⟨.nil, nofun, nofun⟩
    | cons hst _ ih =>
        exact ⟨.cons hst.same ih.1, List.forall_mem_cons.2 ⟨hst.left, ih.2.1⟩,
          List.forall_mem_cons.2 ⟨hst.right, ih.2.2⟩⟩
  · rintro ⟨h, hleft, hright⟩
    induction h with
    | nil => exact .nil
    | cons hst _ ih =>
        rcases List.forall_mem_cons.1 hleft with ⟨hs, hleft⟩
        rcases List.forall_mem_cons.1 hright with ⟨ht, hright⟩
        exact .cons ⟨hst, hs, ht⟩ (ih hleft hright)

theorem twins_list_iff :
    Twins (.list l) (.list l') ↔ l.element = l'.element ∧ List.Forall₂ Twins l.items l'.items := by
  have hnode : ∀ l : TagList, Everywhere DistinctNode (.list l) ↔
      ∀ tag ∈ l.items, tag.Everywhere DistinctNode :=
    fun l => everywhere_list.trans (and_iff_right trivial)
  rw [forall₂_twins_iff, ← hnode, ← hnode, ← and_assoc, ← same_list_iff]
  exact ⟨fun h => ⟨h.same, h.left, h.right⟩, fun h => ⟨h.1, h.2.1, h.2.2⟩⟩

end Tag

namespace Compound

variable {α : Type} {a b : Compound} {key : String} {s t : Tag}

/-- Compounds are twins if neither repeats a name and all look-ups find twins. -/
theorem twins_iff : a.Twins b ↔
    a.Distinct ∧ b.Distinct ∧ ∀ key, Option.Rel Tag.Twins (a.get? key) (b.get? key) := by
  constructor
  · rintro ⟨hsame, hleft, hright⟩
    rcases Tag.everywhere_compound.1 hleft with ⟨ha, hfields⟩
    rcases Tag.everywhere_compound.1 hright with ⟨hb, hfields'⟩
    refine ⟨ha, hb, fun key => ?_⟩
    have hrel := (same_iff ha hb).1 (Tag.same_compound_iff.1 hsame) key
    exact rel_of_rel hrel fun s t hs ht hst =>
      ⟨hst, hfields _ (OrderedMap.mem_of_get? hs), hfields' _ (OrderedMap.mem_of_get? ht)⟩
  -- A field of either compound is found by its name, and what is found there has a twin.
  · rintro ⟨ha, hb, h⟩
    have hsame : ∀ key, Option.Rel Tag.Same (a.get? key) (b.get? key) :=
      fun key => rel_of_rel (h key) fun s t _ _ hst => hst.same
    refine ⟨Tag.same_compound_iff.2 ((same_iff ha hb).2 hsame),
      Tag.everywhere_compound.2 ⟨ha, fun entry hentry => ?_⟩,
      Tag.everywhere_compound.2 ⟨hb, fun entry hentry => ?_⟩⟩
    · have hrel := h entry.1
      rw [OrderedMap.get?_of_mem ha hentry] at hrel
      rcases exists_of_rel_some hrel with ⟨t, -, hst⟩
      exact hst.left
    · have hrel := h entry.1
      rw [OrderedMap.get?_of_mem hb hentry] at hrel
      rcases exists_of_rel_some_right hrel with ⟨s, -, hst⟩
      exact hst.right

theorem Twins.same (h : a.Twins b) : a.Same b := Tag.same_compound_iff.1 (Tag.Twins.same h)

theorem Twins.isEmpty_eq (h : a.Twins b) : a.isEmpty = b.isEmpty := by
  have hsize : a.entries.length = b.entries.length := (same_iff_size.1 h.same).1
  apply Bool.eq_iff_iff.2
  simp only [OrderedMap.isEmpty, List.isEmpty_iff, ← List.length_eq_zero_iff, hsize]

/-- Neither twin has the key, or both have, with twins under it. -/
theorem Twins.cases (h : a.Twins b) (key : String) :
    (a.get? key = none ∧ b.get? key = none) ∨
      ∃ s t, a.get? key = some s ∧ b.get? key = some t ∧ s.Twins t :=
  rel_cases ((twins_iff.1 h).2.2 key)

/-! ## Look-ups -/

theorem Twins.contains_eq (h : a.Twins b) (key : String) : a.contains key = b.contains key := by
  rw [OrderedMap.contains_eq_isSome_get?, OrderedMap.contains_eq_isSome_get?]
  exact isSome_eq_of_rel ((twins_iff.1 h).2.2 key)

theorem Twins.getAs?_eq {read : Tag → Option α} (h : a.Twins b) (hread : Tag.ReadsPlain read)
    (key : String) : a.getAs? key read = b.getAs? key read := by
  unfold getAs?
  rcases h.cases key with ⟨hs, ht⟩ | ⟨s, t, hs, ht, hst⟩
  · rw [hs, ht]
  · rw [hs, ht]
    exact hread.eq_of_same hst.same

theorem Twins.getInt?_eq (h : a.Twins b) (key : String) : a.getInt? key = b.getInt? key :=
  h.getAs?_eq Tag.readsPlain_asInt? key

theorem Twins.getString?_eq (h : a.Twins b) (key : String) : a.getString? key = b.getString? key :=
  h.getAs?_eq Tag.readsPlain_asString? key

theorem Twins.getByteArray?_eq (h : a.Twins b) (key : String) :
    a.getByteArray? key = b.getByteArray? key :=
  h.getAs?_eq Tag.readsPlain_asByteArray? key

theorem Twins.rel_getAs? {R : α → α → Prop} {read : Tag → Option α} (h : a.Twins b)
    (hread : ∀ {s t : Tag}, s.Twins t → Option.Rel R (read s) (read t)) (key : String) :
    Option.Rel R (a.getAs? key read) (b.getAs? key read) :=
  rel_bind ((twins_iff.1 h).2.2 key) fun _ _ hst => hread hst

end Compound

namespace Tag

variable {s t : Tag}

theorem Twins.asCompound? (h : s.Twins t) : Option.Rel Compound.Twins s.asCompound? t.asCompound? := by
  cases h.same.form with
  | list l l' => exact .none
  | compound a b => exact .some h
  | float _ => exact .none
  | double _ => exact .none
  | leaf _ hcompound =>
      cases s with
      | compound a => exact absurd rfl hcompound
      | _ => exact .none

theorem Twins.asList? (h : s.Twins t) :
    Option.Rel (fun l l' => Twins (.list l) (.list l')) s.asList? t.asList? := by
  cases h.same.form with
  | list l l' => exact .some h
  | compound a b => exact .none
  | float _ => exact .none
  | double _ => exact .none
  | leaf hlist _ =>
      cases s with
      | list l => exact absurd rfl hlist
      | _ => exact .none

end Tag

namespace Compound

variable {a b : Compound} {key : String} {s t : Tag}

/-! ## Operations -/

theorem Twins.insert (h : a.Twins b) (hst : s.Twins t) :
    Compound.Twins (OrderedMap.insert a key s) (OrderedMap.insert b key t) := by
  rcases twins_iff.1 h with ⟨ha, hb, hrel⟩
  refine twins_iff.2 ⟨ha.insert key s, hb.insert key t, fun other => ?_⟩
  rw [OrderedMap.get?_insert, OrderedMap.get?_insert]
  by_cases hkey : key = other
  · rw [if_pos hkey, if_pos hkey]
    exact .some hst
  · rw [if_neg hkey, if_neg hkey]
    exact hrel other

theorem Twins.erase (h : a.Twins b) (key : String) :
    Compound.Twins (OrderedMap.erase a key) (OrderedMap.erase b key) := by
  rcases twins_iff.1 h with ⟨ha, hb, hrel⟩
  refine twins_iff.2 ⟨ha.erase key, hb.erase key, fun other => ?_⟩
  by_cases hkey : key = other
  · subst hkey
    rw [OrderedMap.get?_erase_self ha, OrderedMap.get?_erase_self hb]
    exact .none
  · rw [OrderedMap.get?_erase_of_ne hkey, OrderedMap.get?_erase_of_ne hkey]
    exact hrel other

end Compound

end VoxelSchematic
