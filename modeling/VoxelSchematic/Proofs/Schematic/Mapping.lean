import VoxelSchematic.Proofs.IdTable
import VoxelSchematic.Proofs.Notices
import VoxelSchematic.Proofs.Schematic.Traversal
import VoxelSchematic.Schematic.Decoded

/-!
# Names there and back

* `RemapTable.Records`: a table holds the names that a registry has for some numbers. Recording
  one more number keeps it so, and so do writing and reading the mapping sections.
* `Conversion.Carries`: a conversion takes the numbers to what their names mean to another
  registry, and leaves all others.
* `Records.silently_conversion`: whoever reads the names of their own registry knows them all, and
  every number is its own counterpart.
-/

namespace VoxelSchematic

open Telling

namespace Registry

variable {w r : Registry}

/-- What a number comes to in another registry, if its name is known there. -/
def resolve? (w r : Registry) (kind : IdKind) (id : UInt16) : Option UInt16 :=
  (w.name? kind id).bind (r.id? kind)

/-- What a number comes to in another registry; without a name that is known there, itself. -/
def counterpart (w r : Registry) (kind : IdKind) (id : UInt16) : UInt16 :=
  (w.resolve? r kind id).getD id

theorem Built.counterpart_self (h : r.Built) (kind : IdKind) (id : UInt16) :
    r.counterpart r kind id = id := by
  unfold counterpart resolve?
  cases hn : r.name? kind id with
  | none => rfl
  | some n => simp [h.id?_eq_some_iff.2 hn]

end Registry

namespace RemapTable

variable {ε : Type} {w r : Registry} {t : RemapTable} {ids ids' : List (IdKind × UInt16)}

def side (t : RemapTable) : IdKind → IdTable
  | .block => t.blocks
  | .item => t.items

/-- The table holds the names of the given numbers. -/
def Records (t : RemapTable) (w : Registry) (ids : List (IdKind × UInt16)) : Prop :=
  ∀ kind, (t.side kind).Names (w.name? kind) fun id => (kind, id) ∈ ids

theorem records_empty : RemapTable.empty.Records w [] := by
  intro kind
  cases kind with
  | block => exact IdTable.names_empty.congr (by simp)
  | item => exact IdTable.names_empty.congr (by simp)

theorem Records.congr (h : t.Records w ids) (same : ∀ held, held ∈ ids ↔ held ∈ ids') :
    t.Records w ids' :=
  fun kind => (h kind).congr fun id => same (kind, id)

/-- Work that assigns a name which displaces none says nothing. -/
theorem silently_assign {table : IdTable} {name : String} {id : UInt16}
    (h : (table.assign name id).1 = none) :
    Silently (assign table name id : Telling ε IdTable) (table.assign name id).2 := by
  have hassign : table.assign name id = (none, (table.assign name id).2) := Prod.ext h rfl
  unfold assign
  rw [hassign]
  exact silently_pure _

/-- Of a name that is displaced, only the log is told. -/
theorem reports_assign (table : IdTable) (name : String) (id : UInt16) :
    Reports (assign table name id : Telling ε IdTable) (table.assign name id).2 [] := by
  unfold assign
  rcases table.assign name id with ⟨displaced, table'⟩
  cases displaced with
  | none => exact reports_pure table'
  | some loser => exact (reports_log _ _).bind (reports_pure table')

/-! ## Recording -/

/-- What is said of a number that is recorded: of an item without a name, that it is left out. -/
def unnamedNotes (w : Registry) : IdKind × UInt16 → List Notice
  | (.block, _) => []
  | (.item, id) =>
      if (w.itemName? id).isSome then [] else [.logged .debug (Compound.unnamedItem id)]

/-- A table with the names of one kind exchanged, and one number more. -/
theorem Records.exchange {t' : RemapTable} {kind : IdKind} {id : UInt16} (h : t.Records w ids)
    (changed : (t'.side kind).Names (w.name? kind) fun number => (kind, number) ∈ ids ∨ number = id)
    (same : ∀ other, other ≠ kind → t'.side other = t.side other) :
    t'.Records w (ids ++ [(kind, id)]) := by
  intro other
  by_cases hkind : other = kind
  · subst hkind
    exact changed.congr fun number => by simp
  · rw [same other hkind]
    exact (h other).congr fun number => by simp [hkind]

theorem Records.recordBlock (h : t.Records w ids) (hw : w.Built) (id : UInt16) :
    ∃ t', Silently (t.recordBlock w id : Telling ε (Bool × RemapTable))
        ((w.blockName? id).isSome, t') ∧ t'.Records w (ids ++ [(.block, id)]) := by
  unfold RemapTable.recordBlock
  cases hname : w.blockName? id with
  | none => exact ⟨t, silently_pure _, h.exchange ((h .block).unnamed hname) fun _ _ => rfl⟩
  | some name =>
      rcases (h .block).assign (hw.name?_inj .block) hname with ⟨hnone, hnames⟩
      refine ⟨_, (silently_assign hnone).bind (silently_pure _), ?_⟩
      refine h.exchange hnames fun other hother => ?_
      cases other with
      | block => exact absurd rfl hother
      | item => rfl

theorem Records.recordItem (h : t.Records w ids) (hw : w.Built) (id : UInt16) :
    ∃ t', Silently (t.recordItem w id : Telling ε (Bool × RemapTable))
        ((w.itemName? id).isSome, t') ∧ t'.Records w (ids ++ [(.item, id)]) := by
  unfold RemapTable.recordItem
  cases hname : w.itemName? id with
  | none => exact ⟨t, silently_pure _, h.exchange ((h .item).unnamed hname) fun _ _ => rfl⟩
  | some name =>
      rcases (h .item).assign (hw.name?_inj .item) hname with ⟨hnone, hnames⟩
      refine ⟨_, (silently_assign hnone).bind (silently_pure _), ?_⟩
      refine h.exchange hnames fun other hother => ?_
      cases other with
      | block => rfl
      | item => exact absurd rfl hother

theorem Records.recordName (h : t.Records w ids) (hw : w.Built) (held : IdKind × UInt16) :
    ∃ t', Tells (Compound.recordName w held.1 held.2 t : Telling ε RemapTable) t'
        (unnamedNotes w held) ∧ t'.Records w (ids ++ [held]) := by
  rcases held with ⟨kind, id⟩
  cases kind with
  | block =>
      rcases h.recordBlock (ε := ε) hw id with ⟨t', hsilent, hrecords⟩
      have hdone : Silently (Compound.recordName w .block id t : Telling ε RemapTable) t' :=
        hsilent.bind (silently_pure t')
      exact ⟨t', hdone.tells, hrecords⟩
  | item =>
      rcases h.recordItem (ε := ε) hw id with ⟨t', hsilent, hrecords⟩
      refine ⟨t', hsilent.tells.bind ?_, hrecords⟩
      change Tells _ t' (if (w.itemName? id).isSome then [] else _)
      cases (w.itemName? id).isSome with
      | true => exact tells_pure t'
      | false => exact (tells_tell _).bind (tells_pure t')

theorem Records.foldlM_recordName (h : t.Records w ids) (hw : w.Built)
    (more : List (IdKind × UInt16)) :
    ∃ t', Tells (more.foldlM (fun t held => Compound.recordName w held.1 held.2 t) t :
        Telling ε RemapTable) t' (more.flatMap (unnamedNotes w)) ∧ t'.Records w (ids ++ more) := by
  -- The table before each step holds the names of all numbers that came earlier.
  induction more generalizing t ids with
  | nil => exact ⟨t, tells_pure t, h.congr (by simp)⟩
  | cons held rest ih =>
      rcases h.recordName (ε := ε) hw held with ⟨mid, hmid, hrecords⟩
      rcases ih hrecords with ⟨t', hrest, hall⟩
      refine ⟨t', ?_, hall.congr (by simp)⟩
      rw [List.foldlM_cons]
      exact hmid.bind hrest

theorem Records.recordIds (h : t.Records w ids) (hw : w.Built) (tree : Compound) :
    ∃ t', Tells (tree.recordIds w t : Telling ε RemapTable) t'
        (tree.heldIds.flatMap (unnamedNotes w)) ∧ t'.Records w (ids ++ tree.heldIds) := by
  rw [Compound.recordIds_eq_foldlM]
  exact h.foldlM_recordName hw tree.heldIds

/-! ## Writing and reading the sections -/

theorem toUInt16_toInt16 (id : UInt16) : id.toInt16.toUInt16 = id := by simp

/-- Entries with the names of numbers are read without a word. -/
theorem silently_readEntries {naming : UInt16 → Option String} {known : UInt16 → Prop}
    {table : IdTable} {pairs : List (String × UInt16)} (section_ : String)
    (h : table.Names naming known)
    (inj : ∀ a b n, naming a = some n → naming b = some n → a = b)
    (hpairs : ∀ entry ∈ pairs, naming entry.2 = some entry.1) :
    ∃ table', Silently (readEntries section_ (pairs.map fun entry => (entry.1, .short entry.2.toInt16))
        table) table' ∧ table'.Names naming fun id => known id ∨ id ∈ pairs.map Prod.snd := by
  -- Each pair adds its number to those known, and its name displaces none.
  induction pairs generalizing table known with
  | nil => exact ⟨table, silently_pure table, h.congr (by simp)⟩
  | cons entry rest ih =>
      rcases List.forall_mem_cons.1 hpairs with ⟨hentry, hrest⟩
      rcases h.assign inj hentry with ⟨hnone, hnames⟩
      rcases ih hnames hrest with ⟨table', hread, hall⟩
      refine ⟨table', ?_, hall.congr fun id => ?_⟩
      · rw [List.map_cons, readEntries, toUInt16_toInt16]
        exact (silently_assign hnone).bind hread
      · simp [or_assoc]

theorem toSection_entries (table : IdTable) :
    (toSection table).entries = table.pairs.map fun entry => (entry.1, .short entry.2.toInt16) := by
  have hnodup : ((table.pairs.map fun entry => (entry.1, Tag.short entry.2.toInt16)).map
      Prod.fst).Nodup := by
    simpa [Function.comp_def] using table.nodup_pairs
  rw [toSection, OrderedMap.ofList_of_nodup hnodup]

/-- What is written depends on the numbers that were recorded, not on how they were. -/
theorem Records.toSections_eq {t' : RemapTable} (h : t.Records w ids) (h' : t'.Records w ids) :
    t.toSections = t'.toSections := by
  have hpairs : ∀ kind, (t.side kind).pairs = (t'.side kind).pairs :=
    fun kind => (h kind).pairs_eq (h' kind)
  have hblocks : t.blocks.pairs = t'.blocks.pairs := hpairs .block
  have hitems : t.items.pairs = t'.items.pairs := hpairs .item
  rw [toSections, toSections, toSection, toSection, toSection, toSection, hblocks, hitems]

theorem silently_readSection {naming : UInt16 → Option String} {known : UInt16 → Prop}
    {table : IdTable} (section_ : String) (h : table.Names naming known)
    (inj : ∀ a b n, naming a = some n → naming b = some n → a = b) :
    ∃ table', Silently (readSection section_ (some (toSection table))) table' ∧
      table'.Names naming known := by
  have hpairs : ∀ entry ∈ table.pairs, naming entry.2 = some entry.1 :=
    fun entry hentry => (h.mem_pairs_iff.1 hentry).1
  -- The section lists exactly the pairs of the table, so reading it knows the same numbers.
  rcases silently_readEntries section_ IdTable.names_empty inj hpairs with ⟨table', hread, hnames⟩
  refine ⟨table', ?_, hnames.paired, fun id name => ?_⟩
  · rw [readSection, toSection_entries]
    exact hread
  · rw [hnames.nameOf_iff]
    refine and_congr_right fun hname => ?_
    simp only [false_or, List.mem_map]
    constructor
    · intro hentry
      rcases hentry with ⟨entry, hentry, rfl⟩
      exact (h.mem_pairs_iff.1 hentry).2
    · intro hknown
      exact ⟨(name, id), h.mem_pairs_iff.2 ⟨hname, hknown⟩, rfl⟩

/-- What was recorded is read back from the two sections. -/
theorem Records.silently_ofSections (h : t.Records w ids) (hw : w.Built) :
    ∃ t', Silently (ofSections (some t.toSections.1) (some t.toSections.2)) t' ∧
      t'.Records w ids := by
  rcases silently_readSection Schematic.Field.blockMapping (h .block) (hw.name?_inj .block) with
    ⟨blocks, hblocks, hblockNames⟩
  rcases silently_readSection Schematic.Field.itemMapping (h .item) (hw.name?_inj .item) with
    ⟨items, hitems, hitemNames⟩
  refine ⟨⟨blocks, items⟩, hblocks.bind (hitems.bind (silently_pure _)), fun kind => ?_⟩
  cases kind with
  | block => exact hblockNames
  | item => exact hitemNames

end RemapTable

/-! ## Conversions -/

namespace Conversion

variable {ε : Type} {w r : Registry} {c : Conversion} {ids : List (IdKind × UInt16)}

def side (c : Conversion) : IdKind → Std.TreeMap UInt16 UInt16
  | .block => c.blocks
  | .item => c.items

/-- The conversion has exactly the given numbers, where another registry knows their names. -/
def Carries (c : Conversion) (w r : Registry) (ids : List (IdKind × UInt16)) : Prop :=
  ∀ kind id, (c.side kind)[id]? = if (kind, id) ∈ ids then w.resolve? r kind id else none

theorem translate_eq_getD (c : Conversion) (kind : IdKind) (id : UInt16) :
    c.translate kind id = ((c.side kind)[id]?).getD id := by
  cases kind with
  | block => exact Std.TreeMap.getD_eq_getD_getElem?
  | item => exact Std.TreeMap.getD_eq_getD_getElem?

/-- A number that was recorded comes to its counterpart. -/
theorem Carries.translate_eq (h : c.Carries w r ids) {kind : IdKind} {id : UInt16}
    (hid : (kind, id) ∈ ids) : c.translate kind id = w.counterpart r kind id := by
  have hentry := h kind id
  rw [if_pos hid] at hentry
  rw [translate_eq_getD, hentry, Registry.counterpart]

/-- Without entries, every number stays as it is. -/
theorem block_of_not_hasBlocks (h : c.hasBlocks = false) (id : UInt16) : c.block id = id := by
  have hempty : c.blocks.isEmpty = true := by simpa [hasBlocks] using h
  have hnone : ¬id ∈ c.blocks := Std.TreeMap.isEmpty_iff_forall_not_mem.1 hempty id
  exact Std.TreeMap.getD_eq_fallback hnone

theorem Carries.hasItems_iff (h : c.Carries w r ids) :
    c.hasItems = true ↔ ∃ id, (.item, id) ∈ ids ∧ (w.resolve? r .item id).isSome := by
  have hentry : ∀ id, (id ∈ c.items) ↔ (.item, id) ∈ ids ∧ (w.resolve? r .item id).isSome := by
    intro id
    have hside : c.items[id]? = if (.item, id) ∈ ids then w.resolve? r .item id else none :=
      h .item id
    rw [Std.TreeMap.mem_iff_isSome_getElem?, hside]
    by_cases hid : (.item, id) ∈ ids
    · simp [hid]
    · simp [hid]
  have hnonempty : c.hasItems = true ↔ c.items.isEmpty = false := by simp [hasItems]
  rw [hnonempty, Std.TreeMap.isEmpty_eq_false_iff_exists_mem]
  simp only [hentry]

end Conversion

/-- A conversion without blocks is not asked, and would have changed nothing. -/
theorem Decoded.blockId_eq (d : Decoded) (i : Nat) :
    d.blockId i = d.conversion.block (d.planes.blockId i) := by
  unfold blockId
  by_cases hblocks : d.conversion.hasBlocks = true
  · rw [if_pos hblocks]
  · rw [if_neg hblocks, Conversion.block_of_not_hasBlocks (Bool.eq_false_iff.2 hblocks)]

namespace RemapTable

variable {ε : Type} {w r : Registry} {t : RemapTable} {ids : List (IdKind × UInt16)}

/-- What is said of pairs whose names are not known. -/
def unknownNames (kind : IdKind) (lookup : String → Option UInt16)
    (pairs : List (String × UInt16)) : List String :=
  (pairs.filter fun entry => (lookup entry.1).isNone).map fun entry =>
    unknownName kind entry.1 entry.2

/-- The new numbers of pairs, each under its old number, with a warning for each name that is not
known. -/
theorem tells_translate {naming : UInt16 → Option String} (kind : IdKind)
    (lookup : String → Option UInt16) {pairs : List (String × UInt16)}
    (done : Std.TreeMap UInt16 UInt16) (hpairs : ∀ entry ∈ pairs, naming entry.2 = some entry.1) :
    ∃ made, Tells (translate kind lookup pairs done : Telling ε (Std.TreeMap UInt16 UInt16)) made
        ((unknownNames kind lookup pairs).map .warning) ∧
      ∀ id, made[id]? =
        if id ∈ pairs.map Prod.snd ∧ ((naming id).bind lookup).isSome then (naming id).bind lookup
        else done[id]? := by
  -- `done` keeps the entries made so far; a number comes twice only with the same name.
  induction pairs generalizing done with
  | nil => exact ⟨done, tells_pure done, fun id => by simp⟩
  | cons entry rest ih =>
      rcases entry with ⟨name, old⟩
      rcases List.forall_mem_cons.1 hpairs with ⟨hentry, hrest⟩
      change naming old = some name at hentry
      have hmem : ∀ id, id ≠ old →
          (id ∈ ((name, old) :: rest).map Prod.snd ↔ id ∈ rest.map Prod.snd) := by
        intro id hid
        rw [List.map_cons, List.mem_cons, or_iff_right hid]
      cases hlookup : lookup name with
      | some new =>
          rcases ih (done.insert old new) hrest with ⟨made, htells, hmade⟩
          refine ⟨made, ?_, fun id => ?_⟩
          · rw [translate, hlookup]
            simpa [unknownNames, hlookup] using htells
          · rw [hmade, Std.TreeMap.getElem?_insert]
            -- The entry of this pair is the one of its number, whatever the later pairs add.
            by_cases hid : id = old
            · subst hid
              simp [hentry, hlookup]
            · have hne : compare old id ≠ .eq :=
                fun hsame => hid (Std.LawfulEqOrd.eq_of_compare hsame).symm
              simp only [hmem id hid, hne, if_false]
      | none =>
          rcases ih done hrest with ⟨made, htells, hmade⟩
          refine ⟨made, ?_, fun id => ?_⟩
          · rw [translate, hlookup]
            have hwarned : Tells (do
                warn (unknownName kind name old)
                translate kind lookup rest done) made _ := (tells_tell _).bind htells
            simpa [unknownNames, hlookup] using hwarned
          · rw [hmade]
            by_cases hid : id = old
            · subst hid
              simp [hentry, hlookup]
            · simp only [hmem id hid]

theorem tells_translate_pairs {table : IdTable} (paired : table.Paired) (kind : IdKind)
    (lookup : String → Option UInt16) :
    ∃ made, Tells (translate kind lookup table.pairs ∅ : Telling ε (Std.TreeMap UInt16 UInt16)) made
        ((unknownNames kind lookup table.pairs).map .warning) ∧
      ∀ id, made[id]? = (table.name? id).bind lookup := by
  have hpairs : ∀ entry ∈ table.pairs, table.name? entry.2 = some entry.1 :=
    fun entry hentry => (paired entry.1 entry.2).1 (IdTable.mem_pairs_iff.1 hentry)
  rcases tells_translate (ε := ε) kind lookup ∅ hpairs with ⟨made, htells, hmade⟩
  refine ⟨made, htells, fun id => ?_⟩
  rw [hmade]
  cases hnew : (table.name? id).bind lookup with
  | none => simp
  | some new =>
      rcases Option.bind_eq_some_iff.1 hnew with ⟨name, hname, -⟩
      have hlisted : id ∈ table.pairs.map Prod.snd :=
        List.mem_map.2 ⟨(name, id), IdTable.mem_pairs_iff.2 ((paired name id).2 hname), rfl⟩
      rw [if_pos ⟨hlisted, rfl⟩]

/-- What is said of the names of a table that a registry does not know. -/
def unknown (t : RemapTable) (r : Registry) : List String :=
  [IdKind.block, .item].flatMap fun kind => unknownNames kind (r.id? kind) (t.side kind).pairs

/-- The conversion of a table takes each of its numbers to what the name means to a registry. -/
theorem tells_conversion (paired : ∀ kind, (t.side kind).Paired) (r : Registry) :
    ∃ c, Tells (t.conversion r : Telling ε Conversion) c ((t.unknown r).map .warning) ∧
      ∀ kind id, (c.side kind)[id]? = ((t.side kind).name? id).bind (r.id? kind) := by
  rcases tells_translate_pairs (ε := ε) (paired .block) .block (r.id? .block) with
    ⟨blocks, hblocks, hblockEntries⟩
  rcases tells_translate_pairs (ε := ε) (paired .item) .item (r.id? .item) with
    ⟨items, hitems, hitemEntries⟩
  refine ⟨⟨blocks, items⟩, ?_, fun kind id => ?_⟩
  · have htells : Tells (t.conversion r : Telling ε Conversion) ⟨blocks, items⟩ _ :=
      hblocks.bind (hitems.bind (tells_pure _))
    simpa [unknown] using htells
  · cases kind with
    | block => exact hblockEntries id
    | item => exact hitemEntries id

theorem Records.name?_side (h : t.Records w ids) (kind : IdKind) (id : UInt16) :
    (t.side kind).name? id = if (kind, id) ∈ ids then w.name? kind id else none := by
  apply Option.ext
  intro name
  rw [IdTable.name?, (h kind).nameOf_iff]
  by_cases hid : (kind, id) ∈ ids
  · simp [hid]
  · simp [hid]

/-- Each recorded number comes to what its name means. -/
theorem Records.tells_conversion (h : t.Records w ids) (r : Registry) :
    ∃ c, Tells (t.conversion r : Telling ε Conversion) c ((t.unknown r).map .warning) ∧
      c.Carries w r ids := by
  rcases RemapTable.tells_conversion (ε := ε) (fun kind => (h kind).paired) r with
    ⟨c, htells, hentries⟩
  refine ⟨c, htells, fun kind id => ?_⟩
  rw [hentries, h.name?_side]
  by_cases hid : (kind, id) ∈ ids
  · rw [if_pos hid, if_pos hid, Registry.resolve?]
  · rw [if_neg hid, if_neg hid, Option.bind_none]

theorem Records.yields_conversion (h : t.Records w ids) (r : Registry) :
    ∃ c, Yields (t.conversion r : Telling ε Conversion) c ∧ c.Carries w r ids := by
  rcases h.tells_conversion (ε := ε) r with ⟨c, htells, hcarries⟩
  exact ⟨c, htells.yields, hcarries⟩

/-! ## In one registry -/

theorem unknownNames_eq_nil {kind : IdKind} {lookup : String → Option UInt16}
    {pairs : List (String × UInt16)} (h : ∀ entry ∈ pairs, (lookup entry.1).isSome) :
    unknownNames kind lookup pairs = [] := by
  rw [unknownNames, List.map_eq_nil_iff, List.filter_eq_nil_iff]
  intro entry hentry
  rw [Bool.not_eq_true, Option.isNone_eq_false_iff]
  exact h entry hentry

/-- The registry that gave the names knows them, so that nothing is reported. -/
theorem Records.silently_conversion (h : t.Records r ids) (hr : r.Built) :
    ∃ c, Silently (t.conversion r : Telling ε Conversion) c ∧ c.Carries r r ids := by
  have hknown : ∀ kind, unknownNames kind (r.id? kind) (t.side kind).pairs = [] := by
    refine fun kind => unknownNames_eq_nil fun entry hentry => ?_
    rw [hr.id?_eq_some_iff.2 ((h kind).mem_pairs_iff.1 hentry).1]
    rfl
  have hnothing : t.unknown r = [] := by simp [unknown, hknown]
  rcases h.tells_conversion (ε := ε) r with ⟨c, htells, hcarries⟩
  rw [hnothing] at htells
  exact ⟨c, htells.silently, hcarries⟩

end RemapTable

end VoxelSchematic
