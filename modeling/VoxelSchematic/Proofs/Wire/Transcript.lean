import VoxelSchematic.Proofs.Wire.Reading

/-!
# What a transcript is

`Wire.transcribe` and the written form of tags are inverse to each other: a transcript is a tree
that is legible, and reading it again from its written form gives it back, with whatever follows
left unread (`transcribe_eq_ok_iff`).

* `Wire.Legible` is what the wire demands of a single node.
* `Wire.Spelled` collects what it demands of a named tree.
-/

namespace VoxelSchematic.Wire

open Reader

/-! ## Legible trees -/

/-- A node that its written form describes: texts fit their length fields, counts theirs, elements
are of the declared type, and no terminator stands where it would end something. -/
def Legible : Tag → Prop
  | .byteArray v => v.size < countLimit
  | .string s => (Piece.text s).Fits
  | .list l => l.items.length < countLimit ∧ (l.element = .terminator → l.items = []) ∧
      TagList.Uniform l
  | .compound fields => ∀ entry ∈ fields.entries,
      entry.2.kind ≠ .terminator ∧ (Piece.text entry.1).Fits
  | .intArray v => v.size < countLimit
  | .longArray v => v.size < countLimit
  | _ => True

/-- A tree that can be read with `levels` of nesting left. -/
def LegibleTree (levels : Nat) (tag : Tag) : Prop := tag.Everywhere Legible ∧ tag.depth ≤ levels

/-- A tree of a given type that can be read with `levels` of nesting left. -/
def Readable (levels : Nat) (k : TagType) (tag : Tag) : Prop :=
  tag.kind = k ∧ LegibleTree levels tag

section

variable {levels : Nat} {element : TagType} {items : List Tag} {entries : List (String × Tag)}

theorem not_legibleTree_zero_list {l : TagList} : ¬LegibleTree 0 (.list l) := by
  intro h
  rcases h with ⟨-, hdepth⟩
  simp [Tag.depth] at hdepth

theorem not_legibleTree_zero_compound {fields : Compound} : ¬LegibleTree 0 (.compound fields) := by
  intro h
  rcases h with ⟨-, hdepth⟩
  simp [Tag.depth] at hdepth

theorem legibleTree_list_iff :
    LegibleTree (levels + 1) (.list ⟨element, items⟩) ↔
      (items.length < countLimit ∧ (element = .terminator → items = [])) ∧
        ∀ tag ∈ items, Readable levels element tag := by
  simp only [LegibleTree, Tag.everywhere_list, Legible, Tag.depth_list_le_succ_iff, Readable,
    TagList.Uniform]
  constructor
  · intro hlegible
    rcases hlegible with ⟨⟨⟨hlen, hend, hkind⟩, hall⟩, hdepth⟩
    exact ⟨⟨hlen, hend⟩, fun tag h => ⟨hkind tag h, hall tag h, hdepth tag h⟩⟩
  · intro hgiven
    rcases hgiven with ⟨⟨hlen, hend⟩, hall⟩
    exact ⟨⟨⟨hlen, hend, fun tag h => (hall tag h).1⟩, fun tag h => (hall tag h).2.1⟩,
      fun tag h => (hall tag h).2.2⟩

/-- A field that can be read with `levels` of nesting left. -/
def ReadableField (levels : Nat) (entry : String × Tag) : Prop :=
  entry.2.kind ≠ .terminator ∧ (Piece.text entry.1).Fits ∧ LegibleTree levels entry.2

theorem legibleTree_compound_iff :
    LegibleTree (levels + 1) (.compound ⟨entries⟩) ↔
      ∀ entry ∈ entries, ReadableField levels entry := by
  simp only [LegibleTree, Tag.everywhere_compound, Legible, Tag.depth_compound_le_succ_iff,
    ReadableField]
  constructor
  · rintro ⟨⟨hfield, hall⟩, hdepth⟩ entry h
    exact ⟨(hfield entry h).1, (hfield entry h).2, hall entry h, hdepth entry h⟩
  · intro h
    exact ⟨⟨fun entry he => ⟨(h entry he).1, (h entry he).2.1⟩, fun entry he => (h entry he).2.2.1⟩,
      fun entry he => (h entry he).2.2.2⟩

end

/-! ## Written forms -/

section

variable {element : TagType} {items : List Tag} {entries : List (String × Tag)}

theorem word_list :
    (Tag.list ⟨element, items⟩).word =
      element.id :: BigEndian.encode 4 items.length ++ items.flatMap Tag.word := by
  simp [Tag.word, Tag.pieces, Tag.piecesOfItems_eq_flatMap, Piece.number, Piece.bytes,
    List.flatMap_assoc]
  rfl

theorem word_compound :
    (Tag.compound ⟨entries⟩).word =
      entries.flatMap (fun entry => namedWord entry.1 entry.2) ++ [TagType.terminator.id] := by
  simp [Tag.word, Tag.pieces, Tag.piecesOfFields_eq_flatMap, Piece.bytes, List.flatMap_assoc,
    namedWord]

theorem namedWord_of_ne {key : String} {tag : Tag} (h : tag.kind ≠ .terminator) :
    namedWord key tag = tag.kind.id :: ((Piece.text key).bytes ++ tag.word) := by
  simp [namedWord, Tag.namedPieces, Piece.name, h, Piece.bytes, Tag.word]

/-- The written form of some fields, taken apart in the order in which the first is read. -/
theorem flatMap_namedWord_cons {name : String} {tag : Tag} (h : tag.kind ≠ .terminator)
    (entries : List (String × Tag)) (rest : List UInt8) :
    (((name, tag) :: entries).flatMap fun entry => namedWord entry.1 entry.2) ++ rest =
      tag.kind.id :: ((Piece.text name).bytes ++ (tag.word ++
        ((entries.flatMap fun entry => namedWord entry.1 entry.2) ++ rest))) := by
  simp [namedWord_of_ne h]

theorem length_behind_name_le (k : TagType) (name : String) (behind : List UInt8) :
    behind.length ≤ (k.id :: ((Piece.text name).bytes ++ behind)).length := by
  simp only [List.length_cons, List.length_append]
  omega

end

/-! ## Lists and compounds -/

/-- Behind the header of a list come its elements. -/
theorem list_apply (value : TagType → Reader Tag) {element : TagType} {items : List Tag}
    (hcount : items.length < countLimit) (hempty : element = .terminator → items = [])
    (behind : List UInt8) :
    list value (element.id :: (BigEndian.encode 4 items.length ++ behind)) =
      (do
        let vs ← many (value element) items.length
        return ⟨element, vs.toList⟩ : Reader TagList) behind := by
  rcases count_iff.2 ⟨hcount, rfl⟩ with ⟨hneg, hraw⟩
  have hend : ¬(element = .terminator ∧ 0 < Int32.ofNat items.length) := by
    intro hrefused
    rcases hrefused with ⟨helement, hpos⟩
    rw [hempty helement] at hpos
    exact absurd hpos (by decide)
  have hkind : kind (element.id :: (BigEndian.encode 4 items.length ++ behind)) =
      .ok element (BigEndian.encode 4 items.length ++ behind) :=
    (takes_kind _ (Nat.lt_succ_self _) element _).2 ⟨trivial, List.singleton_append.symm⟩
  have hlength : int32 (BigEndian.encode 4 items.length ++ behind) =
      .ok (Int32.ofNat items.length) behind :=
    (takes_int32 _ (Nat.lt_succ_self _) _ _).2
      ⟨trivial, by simp only [toNat_toUInt32_ofNat hcount]⟩
  rw [list, Outcome.bind_of_ok hkind, Outcome.bind_of_ok hlength, if_neg hneg, if_neg hend, hraw]

/-- A field that does not end the compound joins those before it. -/
theorem fieldsFrom_apply (join : Join) (value : TagType → Reader Tag) (budget : Nat)
    (done : Compound) {k : TagType} {name : String} (hk : k ≠ .terminator)
    (hfit : (Piece.text name).Fits) (behind : List UInt8) :
    fieldsFrom join value (budget + 1) done (k.id :: ((Piece.text name).bytes ++ behind)) =
      (value k >>= fun tag => fieldsFrom join value budget (join done name tag)) behind := by
  have hkind : kind (k.id :: ((Piece.text name).bytes ++ behind)) =
      .ok k ((Piece.text name).bytes ++ behind) :=
    (takes_kind _ (Nat.lt_succ_self _) k _).2 ⟨trivial, List.singleton_append.symm⟩
  have hname : text ((Piece.text name).bytes ++ behind) = .ok name behind :=
    (takes_text _ (Nat.lt_succ_self _) name behind).2 ⟨hfit, rfl⟩
  rw [fieldsFrom, Outcome.bind_of_ok hkind, if_neg hk, Outcome.bind_of_ok hname]

theorem takes_list {limit levels : Nat} {value : TagType → Reader Tag}
    (h : ∀ k, Takes limit (value k) (Readable levels k) Tag.word) :
    Takes limit (list value) (fun l => LegibleTree (levels + 1) (.list l))
      (fun l => (Tag.list l).word) := by
  rintro input hin ⟨element, items⟩ rest
  show list value input = .ok ⟨element, items⟩ rest ↔
    LegibleTree (levels + 1) (.list ⟨element, items⟩) ∧
      input = (Tag.list ⟨element, items⟩).word ++ rest
  rw [legibleTree_list_iff, word_list]
  constructor
  -- Reading: the header fixes the type and the count, and both refusals are ruled out by success.
  · intro hread
    simp only [list, Outcome.bind_eq_ok_iff, takes_kind input hin, true_and] at hread
    rcases hread with ⟨k, mid, rfl, raw, left, hraw, hbody⟩
    have hmid : mid.length < limit := by simp at hin; omega
    rcases (takes_int32 mid hmid raw left).1 hraw with ⟨-, rfl⟩
    have hleft : left.length < limit := by simp at hmid; omega
    by_cases hneg : raw < 0
    · simp [hneg, Outcome.throw_apply] at hbody
    · by_cases hend : k = .terminator ∧ 0 < raw
      · simp [hneg, hend, Outcome.throw_apply] at hbody
      · simp only [hneg, hend, if_false, Outcome.bind_eq_ok_iff, Outcome.pure_apply,
          EStateM.Result.ok.injEq, TypedList.mk.injEq] at hbody
        -- Neither negative nor a counted list of terminators: the elements follow.
        rcases hbody with ⟨vs, behind, hvs, ⟨rfl, rfl⟩, rfl⟩
        rcases (takes_many (h k) _ left hleft vs behind).1 hvs with ⟨⟨hsize, hall⟩, rfl⟩
        rcases count_iff.1 ⟨hneg, hsize.symm⟩ with ⟨hcount, rfl⟩
        have hempty : k = .terminator → vs.toList = [] := by
          rintro rfl
          have hzero : ¬0 < vs.size := fun hpos => hend ⟨rfl, (ofNat_pos_iff hcount).2 hpos⟩
          simpa using hzero
        refine ⟨⟨⟨hcount, hempty⟩, hall⟩, ?_⟩
        simp only [toNat_toUInt32_ofNat hcount, List.append_assoc, Array.length_toList]
        rfl
  -- Writing: the elements of a legible list stand behind its header.
  · intro hgiven
    rcases hgiven with ⟨⟨⟨hcount, hempty⟩, hall⟩, rfl⟩
    rw [List.cons_append, List.cons_append, List.append_assoc] at hin ⊢
    have hleft : (items.flatMap Tag.word ++ rest).length < limit := by
      simp at hin ⊢
      omega
    have hitems := (takes_many (h element) items.length _ hleft items.toArray rest).2
      ⟨⟨by simp, by simpa using hall⟩, rfl⟩
    rw [list_apply value hcount hempty, Outcome.bind_of_ok hitems, Outcome.pure_apply]

/-- Fields up to the terminator, each kept as it stands. -/
theorem fieldsFrom_eq_ok_iff {limit levels budget : Nat} {value : TagType → Reader Tag}
    (h : ∀ k, Takes limit (value k) (Readable levels k) Tag.word) {done fields : Compound}
    {input rest : List UInt8} (hin : input.length < limit) (hbudget : input.length < budget) :
    fieldsFrom OrderedMap.append value budget done input = .ok fields rest ↔
      ∃ entries, fields = ⟨done.entries ++ entries⟩ ∧
        (∀ entry ∈ entries, ReadableField levels entry) ∧
        input = entries.flatMap (fun entry => namedWord entry.1 entry.2) ++
          TagType.terminator.id :: rest := by
  -- Every field takes a byte at least, so the budget outlasts the input; what has been read so
  -- far grows with each field.
  induction budget generalizing done input with
  | zero => omega
  | succ budget ih =>
      constructor
      · intro hread
        simp only [fieldsFrom, Outcome.bind_eq_ok_iff, takes_kind input hin, true_and] at hread
        rcases hread with ⟨k, mid, rfl, hbody⟩
        have hmid : mid.length < limit := by simp at hin; omega
        by_cases hk : k = .terminator
        · simp only [hk, if_true, Outcome.pure_apply, EStateM.Result.ok.injEq] at hbody
          rcases hbody with ⟨rfl, rfl⟩
          exact ⟨[], by simp [hk]⟩
        · simp only [hk, if_false, Outcome.bind_eq_ok_iff] at hbody
          rcases hbody with ⟨name, behindName, hname, tag, behindTag, htag, hrest⟩
          -- What is left gets shorter with the name and again with the value, which keeps the budget
          -- ahead of it.
          have hlimit := takes_text.length_rest_lt hmid hname
          rcases (takes_text mid hmid name behindName).1 hname with ⟨hfit, rfl⟩
          have hlimit' := (h k).length_rest_lt hlimit htag
          rcases (h k behindName hlimit tag behindTag).1 htag with ⟨⟨rfl, hlegible⟩, rfl⟩
          have hshort : behindTag.length < budget := by simp at hbudget; omega
          rcases (ih hlimit' hshort).1 hrest with ⟨entries, rfl, hall, rfl⟩
          refine ⟨(name, tag) :: entries, by simp [OrderedMap.append], ?_, ?_⟩
          · exact List.forall_mem_cons.2 ⟨⟨hk, hfit, hlegible⟩, hall⟩
          · simp [namedWord_of_ne hk]
      · intro hgiven
        rcases hgiven with ⟨entries, rfl, hall, rfl⟩
        cases entries with
        | nil =>
            have hkind : kind (TagType.terminator.id :: rest) = .ok .terminator rest :=
              (takes_kind _ (Nat.lt_succ_self _) _ _).2 ⟨trivial, rfl⟩
            rw [List.flatMap_nil, List.nil_append, fieldsFrom, Outcome.bind_of_ok hkind, if_pos rfl,
              List.append_nil, Outcome.pure_apply]
        | cons entry entries =>
            rcases entry with ⟨name, tag⟩
            rcases List.forall_mem_cons.1 hall with ⟨⟨hk, hfit, hlegible⟩, hall⟩
            rw [flatMap_namedWord_cons hk] at hin hbudget ⊢
            have hvalue := Nat.lt_of_le_of_lt (length_behind_name_le tag.kind name _) hin
            have htag := (h tag.kind _ hvalue tag _).2 ⟨⟨rfl, hlegible⟩, rfl⟩
            have hrest := (h tag.kind).length_rest_lt hvalue htag
            rw [fieldsFrom_apply _ _ _ _ hk hfit, Outcome.bind_of_ok htag]
            refine (ih hrest ?_).2 ⟨entries, by simp [OrderedMap.append], hall, rfl⟩
            simp at hbudget ⊢
            omega

theorem takes_fields {budget levels : Nat} {value : TagType → Reader Tag}
    (h : ∀ k, Takes budget (value k) (Readable levels k) Tag.word) :
    Takes budget (fieldsFrom OrderedMap.append value budget .empty)
      (fun fields => LegibleTree (levels + 1) (.compound fields))
      (fun fields => (Tag.compound fields).word) := by
  rintro input hin ⟨entries⟩ rest
  show fieldsFrom OrderedMap.append value budget .empty input = .ok ⟨entries⟩ rest ↔
    LegibleTree (levels + 1) (.compound ⟨entries⟩) ∧
      input = (Tag.compound ⟨entries⟩).word ++ rest
  rw [fieldsFrom_eq_ok_iff h hin hin, legibleTree_compound_iff, word_compound]
  constructor
  · intro hread
    rcases hread with ⟨read, hread, hall, rfl⟩
    obtain rfl : entries = read := by simpa [OrderedMap.empty] using hread
    exact ⟨hall, by simp⟩
  · intro hgiven
    rcases hgiven with ⟨hall, rfl⟩
    exact ⟨entries, by simp [OrderedMap.empty], hall, by simp⟩

/-! ## Whole trees -/

section

variable {levels : Nat} {tag : Tag}

theorem legibleTree_leaf_iff (leaf : tag.nodes = [tag]) (flat : tag.depth = 0) :
    LegibleTree levels tag ↔ Legible tag := by
  simp [LegibleTree, Tag.everywhere_leaf leaf, flat]

theorem readable_leaf_iff {k : TagType} (hlist : k ≠ .list) (hcompound : k ≠ .compound) :
    Readable levels k tag ↔ tag.kind = k ∧ Legible tag := by
  refine and_congr_right fun hk => ?_
  have hleaf : tag.nodes = [tag] ∧ tag.depth = 0 := by
    subst hk
    cases tag <;> simp_all [Tag.kind, Tag.nodes, Tag.depth]
  exact legibleTree_leaf_iff hleaf.1 hleaf.2

end

/-- The values of tags that hold no other tags. -/
theorem takes_leaf {join : Join} {limit budget levels : Nat} {k : TagType} (hlist : k ≠ .list)
    (hcompound : k ≠ .compound) :
    Takes limit (payload join budget levels k) (Readable levels k) Tag.word := by
  have hreadable : ∀ tag, Readable levels k tag ↔ tag.kind = k ∧ Legible tag :=
    fun tag => readable_leaf_iff hlist hcompound
  cases k with
  | list => exact absurd rfl hlist
  | compound => exact absurd rfl hcompound
  | terminator =>
      intro input _ tag rest
      rw [payload, hreadable, Outcome.pure_apply]
      cases tag <;> simp [Tag.kind, Legible, Tag.word, Tag.pieces]
  | byte =>
      rw [payload]
      refine takes_int8.wrap Tag.byte (fun tag => ?_) (fun v => List.flatMap_singleton _ _)
      rw [hreadable]
      cases tag <;> simp [Tag.kind, Legible]
  | short =>
      rw [payload]
      refine takes_int16.wrap Tag.short (fun tag => ?_) (fun v => List.flatMap_singleton _ _)
      rw [hreadable]
      cases tag <;> simp [Tag.kind, Legible]
  | int =>
      rw [payload]
      refine takes_int32.wrap Tag.int (fun tag => ?_) (fun v => List.flatMap_singleton _ _)
      rw [hreadable]
      cases tag <;> simp [Tag.kind, Legible]
  | long =>
      rw [payload]
      refine takes_int64.wrap Tag.long (fun tag => ?_) (fun v => List.flatMap_singleton _ _)
      rw [hreadable]
      cases tag <;> simp [Tag.kind, Legible]
  | float =>
      rw [payload]
      refine takes_binary32.wrap Tag.float (fun tag => ?_) (fun v => List.flatMap_singleton _ _)
      rw [hreadable]
      cases tag <;> simp [Tag.kind, Legible]
  | double =>
      rw [payload]
      refine takes_binary64.wrap Tag.double (fun tag => ?_) (fun v => List.flatMap_singleton _ _)
      rw [hreadable]
      cases tag <;> simp [Tag.kind, Legible]
  | string =>
      rw [payload]
      refine takes_text.wrap Tag.string (fun tag => ?_) (fun v => List.flatMap_singleton _ _)
      rw [hreadable]
      cases tag <;> simp [Tag.kind, Legible]
  -- Bytes are read as a list, while the tag keeps an array of them.
  | byteArray =>
      rw [payload]
      refine takes_counted takes_bytes (fun front => Tag.byteArray front.toArray) (fun tag => ?_) (fun v => ?_)
      · rw [hreadable]
        cases tag with
        | byteArray bytes =>
            simp only [Tag.kind, Legible, true_and, Tag.byteArray.injEq]
            constructor
            · intro hsize
              exact ⟨bytes.toList, hsize, by simp⟩
            · intro h
              rcases h with ⟨front, hlen, rfl⟩
              exact hlen
        | _ => simp [Tag.kind]
      · simp [Tag.word, Tag.pieces, Piece.number, Piece.bytes]
  | intArray =>
      rw [payload]
      refine takes_counted (takes_many_of_all takes_int32) Tag.intArray (fun tag => ?_) (fun v => ?_)
      · rw [hreadable]
        cases tag <;> simp [Tag.kind, Legible]
      · simp [Tag.word, Tag.pieces, Piece.number, Piece.bytes, List.flatMap_map]
  | longArray =>
      rw [payload]
      refine takes_counted (takes_many_of_all takes_int64) Tag.longArray (fun tag => ?_) (fun v => ?_)
      · rw [hreadable]
        cases tag <;> simp [Tag.kind, Legible]
      · simp [Tag.word, Tag.pieces, Piece.number, Piece.bytes, List.flatMap_map]

/-- The values of tags, as far as the budget reaches. -/
theorem takes_payload (budget levels : Nat) (k : TagType) :
    Takes budget (payload OrderedMap.append budget levels k) (Readable levels k) Tag.word := by
  -- One level of nesting is spent on each list and each compound; leaves need none.
  induction levels generalizing k with
  | zero =>
      by_cases hlist : k = .list
      · subst hlist
        intro input _ tag rest
        rw [payload, Outcome.throw_apply]
        cases tag <;> simp [Readable, Tag.kind, not_legibleTree_zero_list]
      · by_cases hcompound : k = .compound
        · subst hcompound
          intro input _ tag rest
          rw [payload, Outcome.throw_apply]
          cases tag <;> simp [Readable, Tag.kind, not_legibleTree_zero_compound]
        · exact takes_leaf hlist hcompound
  | succ levels ih =>
      by_cases hlist : k = .list
      · subst hlist
        rw [payload]
        refine (takes_list ih).wrap Tag.list (fun tag => ?_) (fun l => rfl)
        cases tag <;> simp [Readable, Tag.kind]
      · by_cases hcompound : k = .compound
        · subst hcompound
          rw [payload]
          refine (takes_fields ih).wrap Tag.compound (fun tag => ?_) (fun fields => rfl)
          cases tag <;> simp [Readable, Tag.kind]
        · exact takes_leaf hlist hcompound

/-- A named tree as the wire can carry it. A lone terminator has no name. -/
structure Spelled (name : String) (root : Tag) : Prop where
  legible : root.Everywhere Legible
  depth_le : root.depth ≤ maxDepth
  name_fits : root.kind ≠ .terminator → (Piece.text name).Fits
  name_eq : root.kind = .terminator → name = ""

/-- Transcribing takes exactly the written forms of trees that the wire can carry. -/
theorem transcribe_eq_ok_iff {input rest : List UInt8} {name : String} {root : Tag} :
    transcribe input = .ok (name, root) rest ↔
      Spelled name root ∧ input = namedWord name root ++ rest := by
  have hin : input.length < input.length + 1 := Nat.lt_succ_self _
  have hvalue := takes_payload (input.length + 1) maxDepth
  simp only [transcribe, decodeWith, named, Outcome.bind_eq_ok_iff, takes_kind input hin, true_and]
  constructor
  · intro hread
    rcases hread with ⟨k, mid, hinput, hbody⟩
    have hmid : mid.length < input.length + 1 := by rw [hinput]; simp
    -- A lone terminator has neither a name nor a value behind it.
    by_cases hk : k = .terminator
    · simp only [hk, if_true, Outcome.pure_apply, EStateM.Result.ok.injEq, Prod.mk.injEq] at hbody
      rcases hbody with ⟨⟨rfl, rfl⟩, rfl⟩
      refine ⟨⟨?_, by simp [Tag.depth], fun h => absurd rfl h, fun _ => rfl⟩, by rw [hinput, hk]; rfl⟩
      exact (Tag.everywhere_leaf rfl).2 trivial
    · simp only [hk, if_false, Outcome.bind_eq_ok_iff, Outcome.pure_apply, EStateM.Result.ok.injEq,
        Prod.mk.injEq] at hbody
      rcases hbody with ⟨read, behindName, hname, tag, behindTag, htag, ⟨rfl, rfl⟩, rfl⟩
      have hlimit := takes_text.length_rest_lt hmid hname
      rcases (takes_text mid hmid read behindName).1 hname with ⟨hfit, rfl⟩
      rcases (hvalue k behindName hlimit tag behindTag).1 htag with ⟨⟨rfl, hlegible, hdepth⟩, rfl⟩
      exact ⟨⟨hlegible, hdepth, fun _ => hfit, fun h => absurd h hk⟩,
        by rw [hinput, namedWord_of_ne hk]; simp⟩
  · intro hgiven
    rcases hgiven with ⟨hspelled, hinput⟩
    by_cases hk : root.kind = .terminator
    · obtain rfl : root = .terminator := by cases root <;> simp_all [Tag.kind]
      refine ⟨.terminator, rest, hinput, ?_⟩
      simp [hspelled.name_eq rfl, Outcome.pure_apply]
    · rw [namedWord_of_ne hk, List.cons_append, List.append_assoc] at hinput
      have hmid : ((Piece.text name).bytes ++ (root.word ++ rest)).length < input.length + 1 := by
        rw [hinput]
        simp
      have hname := (takes_text _ hmid name _).2 ⟨hspelled.name_fits hk, rfl⟩
      have hlimit := takes_text.length_rest_lt hmid hname
      have htag := (hvalue root.kind _ hlimit root rest).2
        ⟨⟨rfl, hspelled.legible, hspelled.depth_le⟩, rfl⟩
      refine ⟨root.kind, _, hinput.trans List.singleton_append.symm, ?_⟩
      rw [if_neg hk, Outcome.bind_of_ok hname, Outcome.bind_of_ok htag, Outcome.pure_apply]

end VoxelSchematic.Wire
