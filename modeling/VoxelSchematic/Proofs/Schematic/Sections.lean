import VoxelSchematic.Proofs.Schematic.Faults

/-!
# What mapping sections say

The two mapping sections of a schematic name its block and item numbers. They can be any compounds,
so that several names may state one number.

* `RemapTable.reports_ofSections`: sections of shorts are read as tables filled by assignments.
* `RemapTable.ofSections_follows`: a number comes to what the last of its names means to a
  registry. No two numbers come together that way, and of each name that is left and not known
  there is one warning.
* `RemapTable.ofSections_toSections_assigned`: a table states the same pairs from both sides,
  however it was filled, and what is written of it is read back.
-/

namespace VoxelSchematic

open Schematic Telling

namespace RemapTable

variable {ε : Type} {a : Compound} {r : Registry} {sections : IdKind → Option Compound}
  {kind : IdKind} {name : String} {id : UInt16}

/-! ## The pairs of a section -/

/-- The names of a section with their numbers. -/
def statedPairs (fields : Compound) : List (String × UInt16) :=
  fields.entries.filterMap fun entry => entry.2.asShort?.map fun v => (entry.1, v.toUInt16)

theorem entries_eq_of_shorts (h : ∀ tag ∈ a.values, tag.kind = .short) :
    a.entries = (statedPairs a).map fun entry => (entry.1, .short entry.2.toInt16) := by
  rcases a with ⟨entries⟩
  induction entries with
  | nil => rfl
  | cons entry rest ih =>
      rcases entry with ⟨key, tag⟩
      rcases List.forall_mem_cons.1 h with ⟨htag, hrest⟩
      cases tag with
      | short v => simpa [statedPairs, Tag.asShort?] using ih hrest
      | _ => cases htag

/-- A section states the number that stands under a name. -/
theorem mem_statedPairs_iff (ha : a.Distinct) :
    (name, id) ∈ statedPairs a ↔ a.getShort? name = some id.toInt16 := by
  rw [statedPairs, List.mem_filterMap]
  constructor
  · rintro ⟨⟨key, tag⟩, hentry, hmade⟩
    rcases Option.map_eq_some_iff.1 hmade with ⟨v, hv, hpair⟩
    cases hpair
    unfold Compound.getShort? Compound.getAs?
    rw [OrderedMap.get?_of_mem ha hentry]
    simpa using hv
  · intro hget
    rcases Option.bind_eq_some_iff.1 hget with ⟨tag, htag, hv⟩
    exact ⟨(name, tag), OrderedMap.mem_of_get? htag, by simp [hv]⟩

theorem nodup_statedPairs (ha : a.Distinct) : ((statedPairs a).map Prod.fst).Nodup := by
  have hkeys : a.entries.Pairwise fun entry other => entry.1 ≠ other.1 := List.pairwise_map.1 ha
  rw [List.Nodup, List.pairwise_map, statedPairs, List.pairwise_filterMap]
  refine hkeys.imp fun {entry other} hne pair hpair pair' hpair' => ?_
  rcases Option.map_eq_some_iff.1 hpair with ⟨v, -, rfl⟩
  rcases Option.map_eq_some_iff.1 hpair' with ⟨v', -, rfl⟩
  exact hne

/-- The pairs of a section that may be missing. -/
def statedBy (fields : Option Compound) : List (String × UInt16) := (fields.map statedPairs).getD []

/-- The name that stands last among those with a number. -/
def lastName? (fields : Option Compound) (id : UInt16) : Option String :=
  (((statedBy fields).filter fun pair => pair.2 == id).getLast?).map Prod.fst

/-- What the last name of a number means to a registry. -/
def resolved? (sections : IdKind → Option Compound) (r : Registry) (kind : IdKind) (id : UInt16) :
    Option UInt16 :=
  (lastName? (sections kind) id).bind (r.id? kind)

/-! ## Reading -/

theorem reports_readEntries (section_ : String) (pairs : List (String × UInt16)) (t : IdTable) :
    Reports (readEntries section_ (pairs.map fun entry => (entry.1, .short entry.2.toInt16)) t)
      (pairs.foldl (fun t pair => (t.assign pair.1 pair.2).2) t) [] := by
  induction pairs generalizing t with
  | nil => exact reports_pure t
  | cons entry rest ih =>
      rw [List.map_cons, readEntries, toUInt16_toInt16]
      exact (reports_assign t entry.1 entry.2).bind (ih _)

/-- A section of shorts assigns its pairs, one after the other. -/
theorem reports_readSection (section_ : String) {fields : Option Compound}
    (shorts : ∀ a, fields = some a → ∀ tag ∈ a.values, tag.kind = .short) :
    Reports (readSection section_ fields) (.assigned (statedBy fields)) [] := by
  cases fields with
  | none => exact reports_pure _
  | some a =>
      rw [readSection, entries_eq_of_shorts (shorts a rfl)]
      exact reports_readEntries section_ (statedPairs a) .empty

/-- The table of two sections. -/
def tableOf (sections : IdKind → Option Compound) : RemapTable :=
  ⟨.assigned (statedBy (sections .block)), .assigned (statedBy (sections .item))⟩

theorem reports_ofSections
    (shorts : ∀ kind fields, sections kind = some fields → ∀ tag ∈ fields.values, tag.kind = .short) :
    Reports (ofSections (sections .block) (sections .item)) (tableOf sections) [] :=
  (reports_readSection _ (shorts .block)).bind
    ((reports_readSection _ (shorts .item)).bind (reports_pure _))

theorem side_tableOf (sections : IdKind → Option Compound) (kind : IdKind) :
    (tableOf sections).side kind = .assigned (statedBy (sections kind)) := by
  cases kind with
  | block => rfl
  | item => rfl

theorem paired_side_tableOf (sections : IdKind → Option Compound) (kind : IdKind) :
    ((tableOf sections).side kind).Paired := by
  rw [side_tableOf]
  exact IdTable.paired_assigned _

/-! ## What numbers come to -/

/-- The table lists the names that numbers have at last, each once and by ascending name. -/
structure Lists (t : RemapTable) (sections : IdKind → Option Compound) : Prop where
  sorted : ∀ kind, (t.side kind).pairs.Pairwise fun a b => a.1 < b.1
  mem_pairs_iff : ∀ kind name id,
    (name, id) ∈ (t.side kind).pairs ↔ lastName? (sections kind) id = some name

/-- Numbers come to what their last names mean, all at the same time. Those whose last name means
nothing stay as they are. -/
structure Follows (c : Conversion) (sections : IdKind → Option Compound) (r : Registry) : Prop where
  translate_eq : ∀ kind id, c.translate kind id = (resolved? sections r kind id).getD id
  apart : ∀ kind id other, (resolved? sections r kind id).isSome →
    (resolved? sections r kind other).isSome → c.translate kind id = c.translate kind other →
    id = other
  swapped : ∀ kind id other, resolved? sections r kind id = some other →
    resolved? sections r kind other = some id →
    c.translate kind id = other ∧ c.translate kind other = id

section

variable (distinct : ∀ kind fields, sections kind = some fields → fields.Distinct)

include distinct

theorem name?_side_tableOf (kind : IdKind) (id : UInt16) :
    ((tableOf sections).side kind).name? id = lastName? (sections kind) id := by
  have hnodup : ((statedBy (sections kind)).map Prod.fst).Nodup := by
    cases hfields : sections kind with
    | none => exact List.nodup_nil
    | some fields => exact nodup_statedPairs (distinct kind fields hfields)
  rw [side_tableOf]
  exact IdTable.name?_assigned hnodup id

theorem lists_tableOf : (tableOf sections).Lists sections := by
  refine ⟨fun kind => IdTable.sorted_pairs _, fun kind name id => ?_⟩
  rw [IdTable.mem_pairs_iff, ← name?_side_tableOf distinct]
  exact paired_side_tableOf sections kind name id

/-- A registry has one name for each number, and a section one number for each name. -/
theorem resolved?_inj (hr : r.Built) {other new : UInt16}
    (hid : resolved? sections r kind id = some new)
    (hother : resolved? sections r kind other = some new) : id = other := by
  rcases Option.bind_eq_some_iff.1 hid with ⟨name, hname, hnew⟩
  rcases Option.bind_eq_some_iff.1 hother with ⟨name', hname', hnew'⟩
  cases hr.id?_inj kind hnew hnew'
  rw [← name?_side_tableOf distinct] at hname hname'
  have hpaired := paired_side_tableOf sections kind
  exact Option.some.inj (((hpaired name id).2 hname).symm.trans ((hpaired name other).2 hname'))

theorem follows_of_entries (hr : r.Built) {c : Conversion}
    (entries : ∀ kind id, (c.side kind)[id]? = resolved? sections r kind id) :
    Follows c sections r := by
  have htranslate : ∀ kind id, c.translate kind id = (resolved? sections r kind id).getD id := by
    intro kind id
    rw [Conversion.translate_eq_getD, entries]
  refine ⟨htranslate, fun kind id other hid hother hsame => ?_, fun kind id other hid hother => ?_⟩
  · rcases Option.isSome_iff_exists.1 hid with ⟨new, hnew⟩
    rcases Option.isSome_iff_exists.1 hother with ⟨new', hnew'⟩
    rw [htranslate, htranslate, hnew, hnew'] at hsame
    cases hsame
    exact resolved?_inj distinct hr hnew hnew'
  · rw [htranslate, htranslate, hid, hother]
    exact ⟨rfl, rfl⟩

/-- Two sections are refused for the first entry that is no short, and read without one. A registry
then translates each number by the last name that it has, and warns of each name that is left and
that it does not know. -/
theorem ofSections_follows (hr : r.Built) :
    (∀ said fault,
      (∃ said', ofSections (sections .block) (sections .item) said = .error fault said') ↔
        (strays Field.blockMapping (sections .block) ++
          strays Field.itemMapping (sections .item)).head? = some fault) ∧
    ((∀ kind fields, sections kind = some fields → ∀ tag ∈ fields.values, tag.kind = .short) →
      ∃ t c, Reports (ofSections (sections .block) (sections .item)) t [] ∧ t.Lists sections ∧
        Reports (t.conversion r : Telling ε Conversion) c ((t.unknown r).map (Report.mk .warning)) ∧
        Follows c sections r) := by
  refine ⟨fun said fault => (stopsAt_ofSections _ _).error_iff said, fun shorts => ?_⟩
  rcases tells_conversion (ε := ε) (paired_side_tableOf sections) r with ⟨c, htells, hentries⟩
  refine ⟨tableOf sections, c, reports_ofSections shorts, lists_tableOf distinct,
    ⟨_, htells, reportsOf_warnings _⟩, follows_of_entries distinct hr fun kind id => ?_⟩
  rw [hentries, name?_side_tableOf distinct, resolved?]

end

/-- A registry with two blocks. -/
def doorRegistry : Registry :=
  { blocks := (IdTable.empty.pair "door" 1).pair "gate" 2 }

theorem built_doorRegistry : doorRegistry.Built :=
  @Registry.Built.withBlock _ _ "gate" 2 (@Registry.Built.withBlock _ _ "door" 1 .empty rfl) rfl

/-- Sections in which the two blocks have each other's numbers. A name with the same number stands
before one of them, and another name means nothing. -/
def doorSections : IdKind → Option Compound
  | .block => some ⟨[("wall", .short 1), ("door", .short 2), ("gate", .short 1), ("gone", .short (-1))]⟩
  | .item => none

theorem ofSections_follows_doorSections :
    ∃ t c, Reports (ofSections (doorSections .block) (doorSections .item)) t [] ∧
      Reports (t.conversion doorRegistry : Telling FormatError Conversion) c
        [⟨.warning, "Unknown block gone in schematic mapping, keeping ID 65535"⟩] ∧
      c.block 1 = 2 ∧ c.block 2 = 1 ∧ c.block 0xFFFF = 0xFFFF ∧ c.item 1 = 1 := by
  have hdistinct : ∀ kind fields, doorSections kind = some fields → fields.Distinct := by
    rintro (_ | _) fields ⟨⟩
    simp [OrderedMap.Distinct, OrderedMap.keys]
  have hshorts : ∀ kind fields, doorSections kind = some fields →
      ∀ tag ∈ fields.values, tag.kind = .short := by
    rintro (_ | _) fields ⟨⟩
    simp [OrderedMap.values, Tag.kind]
  rcases (ofSections_follows (ε := FormatError) hdistinct built_doorRegistry).2 hshorts with
    ⟨t, c, hread, -, hconversion, hfollows⟩
  have htable : t = tableOf doorSections := by
    rcases hread.yields #[] with ⟨said', hok⟩
    exact (reports_ofSections hshorts).yields.eq_of_ok hok
  subst htable
  refine ⟨_, c, hread, ?_, ?_, ?_, ?_, ?_⟩
  · have hunknown : (tableOf doorSections).unknown doorRegistry =
        ["Unknown block gone in schematic mapping, keeping ID 65535"] := by cbv
    rw [hunknown] at hconversion
    exact hconversion
  · exact (hfollows.translate_eq .block 1).trans (by cbv)
  · exact (hfollows.translate_eq .block 2).trans (by cbv)
  · exact (hfollows.translate_eq .block 0xFFFF).trans (by cbv)
  · exact (hfollows.translate_eq .item 1).trans (by cbv)

/-! ## Tables that were filled in any way -/

/-- What a table of assignments writes is read back without a word. -/
theorem silently_readSection_assigned (section_ : String) (pairs : List (String × UInt16)) :
    ∃ t, Silently (readSection section_ (some (toSection (.assigned pairs)))) t ∧
      t.same (.assigned pairs) = true := by
  have hpaired := IdTable.paired_assigned pairs
  have hnames : (IdTable.assigned pairs).Names (IdTable.assigned pairs).name? fun _ => True :=
    ⟨hpaired, fun id name => (and_iff_left trivial).symm⟩
  have inj : ∀ id other name, (IdTable.assigned pairs).name? id = some name →
      (IdTable.assigned pairs).name? other = some name → id = other := fun id other name hid hother =>
    Option.some.inj (((hpaired name id).2 hid).symm.trans ((hpaired name other).2 hother))
  rcases silently_readSection section_ hnames inj with ⟨t, hread, hall⟩
  refine ⟨t, hread, hall.paired.same hpaired fun id => Option.ext fun name => ?_⟩
  exact (hall.nameOf_iff id name).trans (and_iff_left trivial)

/-- However a table was filled, both of its sides state the same pairs, and one more assignment
states its pair, drops those that have a part of it, and names the one that loses the number. What
is written of two such tables is read as the same tables. -/
theorem ofSections_toSections_assigned :
    (∀ pairs : List (String × UInt16), let t := IdTable.assigned pairs
      (∀ name id, t.id? name = some id ↔ t.name? id = some name) ∧
      t.size = t.pairs.length ∧ (∀ name id, (name, id) ∈ t.pairs ↔ t.id? name = some id) ∧
      (t.pairs.Pairwise fun a b => a.1 < b.1) ∧
      ∀ name id,
        (∀ other number, (t.assign name id).2.id? other = some number ↔
          (other = name ∧ number = id) ∨
            (other ≠ name ∧ number ≠ id ∧ t.id? other = some number)) ∧
        ∀ holder, (t.assign name id).1 = some holder ↔ t.name? id = some holder ∧ holder ≠ name) ∧
    ∀ blocks items : List (String × UInt16),
      let written := toSections ⟨.assigned blocks, .assigned items⟩
      ∃ t, Silently (ofSections (some written.1) (some written.2)) t ∧
        t.blocks.same (.assigned blocks) = true ∧ t.items.same (.assigned items) = true := by
  constructor
  · intro pairs
    have hpaired := IdTable.paired_assigned pairs
    exact ⟨hpaired, hpaired.size_eq, fun name id => IdTable.mem_pairs_iff, IdTable.sorted_pairs _,
      fun name id => ⟨fun other number => hpaired.id?_assign_eq_some_iff,
        fun holder => hpaired.displaced_assign_eq_some_iff⟩⟩
  · intro blocks items
    rcases silently_readSection_assigned Field.blockMapping blocks with ⟨b, hblocks, hsame⟩
    rcases silently_readSection_assigned Field.itemMapping items with ⟨i, hitems, hsame'⟩
    exact ⟨⟨b, i⟩, hblocks.bind (hitems.bind (silently_pure _)), hsame, hsame'⟩

end RemapTable

end VoxelSchematic
