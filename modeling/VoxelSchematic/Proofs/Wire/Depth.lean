import VoxelSchematic.Proofs.Wire.RoundTrip

/-!
# Trees that are too deep

The writer does not count levels, so a tree that is nested too deep can be written. A reader of what
was written takes everything in front of the first list or compound that is one too many, and then
gives up.

* `Reader.Refuses` says that a reader gives up with a given fault.
* `refuses_payload`: a legible tree of more levels than are left is refused.
* `Storable.decode_image` compares this with trees that are not too deep.
-/

namespace VoxelSchematic.Wire

namespace Reader

variable {α β : Type} {fault : TagError} {input rest : List UInt8}

/-- The reader gives up with the fault. -/
def Refuses (fault : TagError) (r : Reader α) (input : List UInt8) : Prop :=
  ∃ left, r input = .error fault left

theorem refuses_throw (fault : TagError) (input : List UInt8) :
    Refuses fault (throw fault : Reader α) input := ⟨input, rfl⟩

theorem Refuses.bind {r : Reader α} (h : Refuses fault r input) (f : α → Reader β) :
    Refuses fault (r >>= f) input := by
  rcases h with ⟨left, hr⟩
  exact ⟨left, Outcome.bind_of_error hr⟩

theorem Refuses.after {r : Reader α} {f : α → Reader β} {a : α} (hr : r input = .ok a rest)
    (h : Refuses fault (f a) rest) : Refuses fault (r >>= f) input := by
  rcases h with ⟨left, hf⟩
  exact ⟨left, (Outcome.bind_of_ok hr).trans hf⟩

theorem Refuses.map {r : Reader α} (h : Refuses fault r input) (f : α → β) :
    Refuses fault (f <$> r) input := by
  rw [map_eq_pure_bind]
  exact h.bind _

/-- On inputs shorter than `limit`, the reader gives up on the word of any value that is `bad`. -/
def RefusesWords (limit : Nat) (fault : TagError) (r : Reader α) (bad : α → Prop)
    (word : α → List UInt8) : Prop :=
  ∀ v rest, bad v → (word v ++ rest).length < limit → Refuses fault r (word v ++ rest)

/-- Of some items in a row, the first that is bad is the one that the reader gives up on. -/
theorem refuses_manyFrom {limit : Nat} {item : Reader α} {ok bad : α → Prop}
    {word : α → List UInt8} (htakes : Takes limit item ok word)
    (hrefuses : RefusesWords limit fault item bad word) {xs : List α} {done : Array α}
    (hall : ∀ x ∈ xs, ok x ∨ bad x) (hbad : ∃ x ∈ xs, bad x)
    (hin : (xs.flatMap word ++ rest).length < limit) :
    Refuses fault (manyFrom item xs.length done) (xs.flatMap word ++ rest) := by
  -- The items in front of the first bad one are read, which leaves a shorter input each time.
  induction xs generalizing done with
  | nil =>
      rcases hbad with ⟨x, hx, -⟩
      exact absurd hx List.not_mem_nil
  | cons x xs ih =>
      rw [List.flatMap_cons, List.append_assoc] at hin ⊢
      rcases List.forall_mem_cons.1 hall with ⟨hhead, htail⟩
      by_cases hfirst : bad x
      · exact (hrefuses x _ hfirst hin).bind _
      · have hx := (htakes _ hin x _).2 ⟨hhead.resolve_right hfirst, rfl⟩
        have hlater : ∃ y ∈ xs, bad y := by
          rcases hbad with ⟨y, hy, hbad⟩
          rcases List.mem_cons.1 hy with rfl | hy
          · exact absurd hbad hfirst
          · exact ⟨y, hy, hbad⟩
        exact .after hx (ih htail hlater (htakes.length_rest_lt hin hx))

end Reader

open Reader Tag

/-! ## Trees with too many levels -/

/-- A tree that is legible but for having more than `levels` levels. -/
def TooDeep (levels : Nat) (tag : Tag) : Prop := tag.Everywhere Legible ∧ levels < tag.depth

section

variable {levels : Nat} {element : TagType} {items : List Tag} {entries : List (String × Tag)}
  {tag : Tag}

theorem legibleTree_or_tooDeep (levels : Nat) (h : tag.Everywhere Legible) :
    LegibleTree levels tag ∨ TooDeep levels tag := by
  rcases Nat.lt_or_ge levels tag.depth with hdeep | hshallow
  · exact .inr ⟨h, hdeep⟩
  · exact .inl ⟨h, hshallow⟩

theorem TooDeep.list (h : TooDeep (levels + 1) (.list ⟨element, items⟩)) :
    Legible (.list ⟨element, items⟩) ∧ (∀ tag ∈ items, tag.Everywhere Legible) ∧
      ∃ tag ∈ items, TooDeep levels tag := by
  rcases everywhere_list.1 h.1 with ⟨hhere, hbelow⟩
  rcases succ_lt_depth_list_iff.1 h.2 with ⟨tag, htag, hdeep⟩
  exact ⟨hhere, hbelow, tag, htag, hbelow tag htag, hdeep⟩

theorem TooDeep.compound (h : TooDeep (levels + 1) (.compound ⟨entries⟩)) :
    Legible (.compound ⟨entries⟩) ∧ (∀ entry ∈ entries, entry.2.Everywhere Legible) ∧
      ∃ entry ∈ entries, TooDeep levels entry.2 := by
  rcases everywhere_compound.1 h.1 with ⟨hhere, hbelow⟩
  rcases succ_lt_depth_compound_iff.1 h.2 with ⟨entry, hentry, hdeep⟩
  exact ⟨hhere, hbelow, entry, hentry, hbelow entry hentry, hdeep⟩

/-- Only lists and compounds have levels. -/
theorem TooDeep.kind_eq (h : TooDeep levels tag) : tag.kind = .list ∨ tag.kind = .compound := by
  rcases h with ⟨-, hdeep⟩
  cases tag with
  | list l => exact .inl rfl
  | compound fields => exact .inr rfl
  | _ => exact absurd hdeep (Nat.not_lt_zero levels)

end

/-! ## Readers that give up -/

section

variable {budget levels : Nat} {value : TagType → Reader Tag}

/-- A tree of a given type that is too deep. -/
def DeepValue (levels : Nat) (k : TagType) (tag : Tag) : Prop := tag.kind = k ∧ TooDeep levels tag

theorem refuses_list
    (htakes : ∀ k, Takes budget (value k) (Readable levels k) Tag.word)
    (hrefuses : ∀ k, RefusesWords budget .depthLimitExceeded (value k) (DeepValue levels k) Tag.word) :
    RefusesWords budget .depthLimitExceeded (list value)
      (fun l => TooDeep (levels + 1) (.list l)) (fun l => (Tag.list l).word) := by
  intro l rest hdeep hin
  rcases l with ⟨element, items⟩
  rcases hdeep.list with ⟨⟨hcount, hempty, huniform⟩, hbelow, tag, htag, hdeeper⟩
  simp only [word_list, List.cons_append, List.append_assoc] at hin ⊢
  have hitems : ∀ tag ∈ items, Readable levels element tag ∨ DeepValue levels element tag := by
    intro tag htag
    rcases legibleTree_or_tooDeep levels (hbelow tag htag) with hfits | hdeep
    · exact .inl ⟨huniform tag htag, hfits⟩
    · exact .inr ⟨huniform tag htag, hdeep⟩
  have hbehind : (items.flatMap Tag.word ++ rest).length < budget := by
    simp only [List.length_cons, List.length_append] at hin ⊢
    omega
  have hmany : Refuses .depthLimitExceeded (many (value element) items.length)
      (items.flatMap Tag.word ++ rest) :=
    refuses_manyFrom (htakes element) (hrefuses element) hitems
      ⟨tag, htag, huniform tag htag, hdeeper⟩ hbehind
  rw [Refuses, list_apply value hcount hempty]
  exact hmany.bind _

theorem refuses_fieldsFrom {entries : List (String × Tag)} {steps : Nat} {done : Compound}
    {rest : List UInt8}
    (htakes : ∀ k, Takes budget (value k) (Readable levels k) Tag.word)
    (hrefuses : ∀ k, RefusesWords budget .depthLimitExceeded (value k) (DeepValue levels k) Tag.word)
    (hhere : Legible (.compound ⟨entries⟩)) (hbelow : ∀ entry ∈ entries, entry.2.Everywhere Legible)
    (hdeep : ∃ entry ∈ entries, TooDeep levels entry.2)
    (hin : ((entries.flatMap fun entry => namedWord entry.1 entry.2) ++ rest).length < budget)
    (hsteps : ((entries.flatMap fun entry => namedWord entry.1 entry.2) ++ rest).length < steps) :
    Refuses .depthLimitExceeded (fieldsFrom OrderedMap.append value steps done)
      ((entries.flatMap fun entry => namedWord entry.1 entry.2) ++ rest) := by
  -- The fields in front of the first that is too deep are read, each of them in one step.
  induction entries generalizing steps done with
  | nil =>
      rcases hdeep with ⟨entry, hentry, -⟩
      exact absurd hentry List.not_mem_nil
  | cons entry entries ih =>
      rcases entry with ⟨name, tag⟩
      rcases List.forall_mem_cons.1 hhere with ⟨⟨hkind, hname⟩, hnames⟩
      rcases List.forall_mem_cons.1 hbelow with ⟨htag, htags⟩
      cases steps with
      | zero => exact absurd hsteps (Nat.not_lt_zero _)
      | succ steps =>
          rw [flatMap_namedWord_cons hkind] at hin hsteps ⊢
          have hvalue := Nat.lt_of_le_of_lt (length_behind_name_le tag.kind name _) hin
          rw [Refuses, fieldsFrom_apply _ _ _ _ hkind hname]
          rcases legibleTree_or_tooDeep levels htag with hfits | hfirst
          · have hread := (htakes tag.kind _ hvalue tag _).2 ⟨⟨rfl, hfits⟩, rfl⟩
            have hlater : ∃ entry ∈ entries, TooDeep levels entry.2 := by
              rcases hdeep with ⟨entry, hentry, hdeep⟩
              rcases List.mem_cons.1 hentry with rfl | hentry
              · exact absurd hdeep.2 (Nat.not_lt.2 hfits.2)
              · exact ⟨entry, hentry, hdeep⟩
            refine Refuses.after hread (ih hnames htags hlater ?_ ?_)
            · exact (htakes tag.kind).length_rest_lt hvalue hread
            · simp only [List.length_cons, List.length_append] at hsteps ⊢
              omega
          · exact (hrefuses tag.kind tag _ ⟨rfl, hfirst⟩ hvalue).bind _

theorem refuses_fields
    (htakes : ∀ k, Takes budget (value k) (Readable levels k) Tag.word)
    (hrefuses : ∀ k, RefusesWords budget .depthLimitExceeded (value k) (DeepValue levels k) Tag.word) :
    RefusesWords budget .depthLimitExceeded (fieldsFrom OrderedMap.append value budget .empty)
      (fun fields => TooDeep (levels + 1) (.compound fields))
      (fun fields => (Tag.compound fields).word) := by
  intro fields rest hdeep hin
  rcases fields with ⟨entries⟩
  rcases hdeep.compound with ⟨hhere, hbelow, hdeeper⟩
  simp only [word_compound, List.append_assoc] at hin ⊢
  exact refuses_fieldsFrom htakes hrefuses hhere hbelow hdeeper hin hin

/-- A tree with more levels than are left is refused, though it is legible. -/
theorem refuses_payload (budget levels : Nat) (k : TagType) :
    RefusesWords budget .depthLimitExceeded (payload OrderedMap.append budget levels k)
      (DeepValue levels k) Tag.word := by
  induction levels generalizing k with
  | zero =>
      -- Without levels left, a list or a compound is refused by its type alone.
      intro tag rest hdeep _
      rcases hdeep with ⟨rfl, hdeep⟩
      rcases hdeep.kind_eq with hkind | hkind
      · rw [hkind, payload]
        exact refuses_throw _ _
      · rw [hkind, payload]
        exact refuses_throw _ _
  | succ levels ih =>
      have htakes := takes_payload budget levels
      intro tag rest hdeep hin
      rcases hdeep with ⟨rfl, hdeep⟩
      cases tag with
      | list l => exact (refuses_list htakes ih l rest hdeep hin).bind _
      | compound fields => exact (refuses_fields htakes ih fields rest hdeep hin).bind _
      | _ => exact absurd hdeep.2 (Nat.not_lt_zero _)

end

/-! ## Whole trees -/

section

variable {name : String} {root : Tag}

theorem refuses_transcribe (hdeep : TooDeep maxDepth root) (hname : (Piece.text name).Fits)
    (rest : List UInt8) :
    Refuses .depthLimitExceeded transcribe (namedWord name root ++ rest) := by
  have hkind : root.kind ≠ .terminator := by
    intro hterminator
    rcases hdeep.kind_eq with hkind | hkind
    · exact absurd (hterminator.symm.trans hkind) (by decide)
    · exact absurd (hterminator.symm.trans hkind) (by decide)
  rw [namedWord_of_ne hkind, List.cons_append, List.append_assoc]
  have hin := Nat.lt_succ_self (root.kind.id :: ((Piece.text name).bytes ++ (root.word ++ rest))).length
  have hvalue := Nat.lt_of_le_of_lt (length_behind_name_le root.kind name (root.word ++ rest)) hin
  have hread := refuses_payload _ maxDepth root.kind root rest ⟨rfl, hdeep⟩ hvalue
  have hfirst : kind (root.kind.id :: ((Piece.text name).bytes ++ (root.word ++ rest))) =
      .ok root.kind ((Piece.text name).bytes ++ (root.word ++ rest)) :=
    (takes_kind _ hin _ _).2 ⟨trivial, List.singleton_append.symm⟩
  have hsecond : text ((Piece.text name).bytes ++ (root.word ++ rest)) = .ok name (root.word ++ rest) :=
    (takes_text _ (Nat.lt_succ_self _) _ _).2 ⟨hname, rfl⟩
  refine Refuses.after hfirst ?_
  rw [if_neg hkind]
  exact Refuses.after hsecond (hread.bind _)

theorem refuses_decode (hdeep : TooDeep maxDepth root) (hname : (Piece.text name).Fits)
    (rest : List UInt8) : Refuses .depthLimitExceeded decode (namedWord name root ++ rest) := by
  have hread : Refuses .depthLimitExceeded
      (named OrderedMap.append ((namedWord name root ++ rest).length + 1))
      (namedWord name root ++ rest) := refuses_transcribe hdeep hname rest
  have hsettled := hread.map fun read => (read.1, read.2.settled)
  rw [← named_map] at hsettled
  exact hsettled

/-- What the wire demands of a tree, besides a limit to its depth. -/
structure Storable (root : Tag) : Prop where
  holdsNoTerminator : root.Everywhere HoldsNoTerminator
  emptyIfOfTerminators : root.Everywhere EmptyIfOfTerminators
  count_lt : root.Everywhere fun node => node.count < countLimit

section

variable {tag : Tag} {entries : List (String × Tag)}

theorem storable_leaf (hlist : tag.kind ≠ .list) (hcompound : tag.kind ≠ .compound)
    (hcount : tag.count < countLimit) : Storable tag := by
  cases tag with
  | list l => exact absurd rfl hlist
  | compound fields => exact absurd rfl hcompound
  | _ =>
      exact ⟨(everywhere_leaf rfl).2 trivial, (everywhere_leaf rfl).2 trivial,
        (everywhere_leaf rfl).2 hcount⟩

theorem storable_ofCompounds {items : List Compound} (hcount : items.length < countLimit)
    (hitems : ∀ fields ∈ items, Storable (.compound fields)) :
    Storable (.list (TagList.ofCompounds items)) := by
  have hlength : count (.list (TagList.ofCompounds items)) < countLimit := by
    simpa [count, TagList.ofCompounds, TagList.length] using hcount
  exact
    { holdsNoTerminator := everywhere_ofCompounds.2
        ⟨trivial, fun fields hfields => (hitems fields hfields).holdsNoTerminator⟩
      emptyIfOfTerminators := everywhere_ofCompounds.2
        ⟨TagType.noConfusion,
          fun fields hfields => (hitems fields hfields).emptyIfOfTerminators⟩
      count_lt := everywhere_ofCompounds.2
        ⟨hlength, fun fields hfields => (hitems fields hfields).count_lt⟩ }

theorem storable_compound (hvalue : ∀ entry ∈ entries, entry.2.kind ≠ .terminator)
    (hentries : ∀ entry ∈ entries, Storable entry.2) : Storable (.compound ⟨entries⟩) := by
  have hhere : HoldsNoTerminator (.compound ⟨entries⟩) := by
    intro hmem
    rcases List.mem_map.1 hmem with ⟨entry, hentry, hterminator⟩
    exact hvalue entry hentry (kind_eq_terminator_iff.2 hterminator)
  exact
    { holdsNoTerminator := everywhere_compound.2
        ⟨hhere, fun entry hentry => (hentries entry hentry).holdsNoTerminator⟩
      emptyIfOfTerminators := everywhere_compound.2
        ⟨trivial, fun entry hentry => (hentries entry hentry).emptyIfOfTerminators⟩
      count_lt := everywhere_compound.2
        ⟨countLimit_pos, fun entry hentry => (hentries entry hentry).count_lt⟩ }

end

/-- Of the compounds that are storable and were written, those of at most 512 levels are read
back, and all others are refused. -/
theorem Storable.decode_image {fields : Compound} (h : Storable (.compound fields))
    (regular : Tag.Regular (.compound fields)) {bytes : Array UInt8}
    (written : image name (.compound fields) = ⟨bytes, none⟩) (rest : List UInt8) :
    (depth (.compound fields) ≤ maxDepth →
        decode (bytes.toList ++ rest) = .ok (name, .compound fields) rest) ∧
      (maxDepth < depth (.compound fields) →
        Refuses .depthLimitExceeded decode (bytes.toList ++ rest)) := by
  rcases image_eq_iff.1 written with ⟨hfits, hbytes⟩
  rw [hbytes]
  constructor
  · intro hdepth
    have hcarriable : Carriable name (.compound fields) :=
      ⟨h.holdsNoTerminator, h.emptyIfOfTerminators, h.count_lt, hdepth, nofun⟩
    have hspelled := (spelled_iff regular.uniform).2 ⟨hcarriable, hfits⟩
    have htranscript : transcribe (namedWord name (.compound fields) ++ rest) =
        .ok (name, .compound fields) rest := transcribe_eq_ok_iff.2 ⟨hspelled, rfl⟩
    exact decode_eq_ok_iff.2 ⟨_, htranscript, Tag.settled_of_distinct regular.distinct⟩
  · intro hdepth
    rcases fits_namedPieces_iff.1 hfits with ⟨hname, hpieces⟩
    have hlegible : Tag.Everywhere Legible (.compound fields) :=
      everywhere_legible_iff.2 ⟨regular.uniform, h.holdsNoTerminator, h.emptyIfOfTerminators,
        h.count_lt, (fits_pieces_iff h.holdsNoTerminator).1 hpieces⟩
    exact refuses_decode ⟨hlegible, hdepth⟩ (hname nofun) rest

end

end VoxelSchematic.Wire
