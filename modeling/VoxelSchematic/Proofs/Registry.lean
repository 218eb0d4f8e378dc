import VoxelSchematic.Proofs.Outcome
import VoxelSchematic.Registry.Document

/-!
# Registries state pairs

* `IdTable.claim_eq_ok_iff` and `claim_eq_error_iff` say what a claim does and when it fails.
* `Registry.id?`, `name?`, `table` and `add` take the kind of the name, since both kinds are treated
  alike.
* `Registry.Built` is every registry that can be made, and `Built.paired` says that both of its
  tables state the same pairs from both sides, so that no number has two names.
* `IdTable.Names` says of a table that it holds exactly the names of some numbers.
  `Names.assign` adds one more, and nobody loses a number by it.
-/

namespace VoxelSchematic

namespace IdTable

variable {t t' : IdTable} {name : String} {id : UInt16}

/-! ## Changes to paired tables -/

theorem idOf_pair (t : IdTable) (name other : String) (id : UInt16) :
    (t.pair name id).idOf[other]? = if name = other then some id else t.idOf[other]? := by
  simp [pair, Std.TreeMap.getElem?_insert]

theorem nameOf_pair (t : IdTable) (name : String) (id number : UInt16) :
    (t.pair name id).nameOf[number]? = if id = number then some name else t.nameOf[number]? := by
  simp [pair, Std.TreeMap.getElem?_insert]

theorem paired_empty : empty.Paired := by
  intro name id
  simp [empty]

theorem idOf_release (t : IdTable) (name other : String) :
    (t.release name).idOf[other]? = if name = other then none else t.idOf[other]? := by
  unfold release id?
  cases hid : t.idOf[name]? with
  | none =>
      by_cases hsame : name = other
      · rw [if_pos hsame, ← hsame, hid]
      · rw [if_neg hsame]
  | some id => simp [Std.TreeMap.getElem?_erase]

theorem Paired.nameOf_release (h : t.Paired) (name : String) (number : UInt16) :
    (t.release name).nameOf[number]? =
      if t.nameOf[number]? = some name then none else t.nameOf[number]? := by
  have hpair := h name number
  unfold release id?
  cases hid : t.idOf[name]? with
  | none =>
      have hother : ¬t.nameOf[number]? = some name := by simp [← hpair, hid]
      rw [if_neg hother]
  | some id =>
      have hholds : t.nameOf[number]? = some name ↔ id = number := by simp [← hpair, hid]
      simp [Std.TreeMap.getElem?_erase, hholds]

theorem nameOf_release_pair (h : t.Paired) (name : String) (id number : UInt16) :
    ((t.release name).pair name id).nameOf[number]? =
      if id = number then some name
      else if t.nameOf[number]? = some name then none else t.nameOf[number]? := by
  rw [nameOf_pair, h.nameOf_release]

/-- A number that no other name holds can be paired, once the older pair of the name is gone. -/
theorem Paired.release_pair (h : t.Paired)
    (free : ∀ holder, t.nameOf[id]? = some holder → holder = name) :
    ((t.release name).pair name id).Paired := by
  -- Every pair of a name and a number is compared: the new one, one with the same name, one with
  -- the same number, and one that has nothing to do with them.
  intro other number
  rw [idOf_pair, idOf_release, nameOf_release_pair h]
  have hpair := h other number
  by_cases hname : name = other
  · subst hname
    by_cases hid : id = number
    · simp [hid]
    · by_cases hholds : t.nameOf[number]? = some name
      · simp [hid, hholds]
      · simp [hid, hholds]
  · rw [if_neg hname, if_neg hname, hpair]
    by_cases hid : id = number
    -- The number is taken by the new name; no other name may have held it.
    · have hother : t.nameOf[number]? ≠ some other :=
        fun hholds => hname (free other (hid ▸ hholds)).symm
      simp [hid, hname, hother]
    · by_cases hholds : t.nameOf[number]? = some name
      · simp [hid, hholds, hname]
      · simp [hid, hholds]

/-- A claim drops the older pair of the name, where no other name holds the number. -/
theorem claim_eq_ok_iff :
    t.claim name id = .ok t' ↔
      (∀ holder, t.name? id = some holder → holder = name) ∧
        t' = (t.release name).pair name id := by
  unfold claim
  cases hholder : t.name? id with
  | none => simp [eq_comm]
  | some holder =>
      by_cases hsame : holder = name
      · simp [hsame, eq_comm]
      · simp [hsame]

theorem claim_eq_error_iff {holder : String} :
    t.claim name id = .error holder ↔ t.name? id = some holder ∧ holder ≠ name := by
  unfold claim
  cases hholder : t.name? id with
  | none => simp
  | some other =>
      by_cases hsame : other = name
      · simp [hsame, eq_comm]
      · simp only [hsame, if_false, Except.error.injEq, Option.some.injEq]
        constructor
        · rintro rfl
          exact ⟨rfl, hsame⟩
        · exact And.left

theorem Paired.claim (h : t.Paired) (claimed : t.claim name id = .ok t') : t'.Paired := by
  rcases claim_eq_ok_iff.1 claimed with ⟨hfree, rfl⟩
  exact h.release_pair hfree

/-! ## Tables of names -/

/-- The table holds the names of the known numbers, and nothing else. -/
structure Names (t : IdTable) (name? : UInt16 → Option String) (known : UInt16 → Prop) : Prop where
  paired : t.Paired
  nameOf_iff : ∀ id name, t.nameOf[id]? = some name ↔ name? id = some name ∧ known id

section

variable {naming : UInt16 → Option String} {known known' : UInt16 → Prop}

theorem names_empty : empty.Names naming (fun _ => False) :=
  ⟨paired_empty, fun id name => by simp [empty]⟩

theorem Names.congr (h : t.Names naming known) (same : ∀ id, known id ↔ known' id) :
    t.Names naming known' :=
  ⟨h.paired, fun id name => by rw [h.nameOf_iff, same]⟩

/-- A number without a name adds nothing. -/
theorem Names.unnamed (h : t.Names naming known) (none : naming id = none) :
    t.Names naming (fun number => known number ∨ number = id) := by
  refine ⟨h.paired, fun number name => ?_⟩
  rw [h.nameOf_iff]
  constructor
  · intro hholds
    exact ⟨hholds.1, .inl hholds.2⟩
  · intro hholds
    refine ⟨hholds.1, hholds.2.resolve_right fun hsame => ?_⟩
    rw [hsame, none] at hholds
    cases hholds.1

/-- The name of a number joins the table, and displaces none. -/
theorem Names.assign (h : t.Names naming known)
    (inj : ∀ a b n, naming a = some n → naming b = some n → a = b) (named : naming id = some name) :
    (t.assign name id).1 = none ∧
      (t.assign name id).2.Names naming (fun number => known number ∨ number = id) := by
  -- Whoever holds the number holds it under its name, since the table has names of `naming` only.
  have hfree : ∀ holder, t.nameOf[id]? = some holder → holder = name := by
    intro holder hholds
    have hnamed := ((h.nameOf_iff id holder).1 hholds).1
    exact Option.some.inj (hnamed.symm.trans named)
  have hreleased : (t.release name).name? id = none := by
    unfold name?
    rw [h.paired.nameOf_release]
    cases hholds : t.nameOf[id]? with
    | none => simp
    | some holder => simp [hfree holder hholds]
  have hassign : t.assign name id = (none, (t.release name).pair name id) := by
    rw [IdTable.assign, hreleased]
  rw [hassign]
  refine ⟨rfl, h.paired.release_pair hfree, fun number other => ?_⟩
  rw [nameOf_release_pair h.paired]
  by_cases hid : id = number
  · subst hid
    simp [named]
  -- No other number has this name, so that releasing it takes nothing away.
  · have hother : t.nameOf[number]? ≠ some name :=
      fun hholds => hid (inj id number name named ((h.nameOf_iff number name).1 hholds).1)
    rw [if_neg hid, if_neg hother, h.nameOf_iff]
    simp [Ne.symm hid]

/-- The pairs of a table are the known numbers with their names. -/
theorem Names.mem_pairs_iff (h : t.Names naming known) :
    (name, id) ∈ t.pairs ↔ naming id = some name ∧ known id := by
  rw [pairs, Std.TreeMap.mem_toList_iff_getElem?_eq_some, h.paired name id, h.nameOf_iff]

theorem nodup_pairs (t : IdTable) : (t.pairs.map Prod.fst).Nodup := by
  rw [List.Nodup, List.pairwise_map]
  refine t.idOf.distinct_keys_toList.imp fun hne hsame => hne ?_
  rw [hsame]
  exact Std.ReflOrd.compare_self

/-- Tables of the same names list the same pairs in the same order. -/
theorem Names.pairs_eq (h : t.Names naming known) (h' : t'.Names naming known) :
    t.pairs = t'.pairs := by
  have hperm : t.pairs.Perm t'.pairs := by
    refine (List.perm_ext_iff_of_nodup t.nodup_pairs.of_map t'.nodup_pairs.of_map).2 ?_
    rintro ⟨name, id⟩
    rw [h.mem_pairs_iff, h'.mem_pairs_iff]
  exact (Std.TreeMap.Equiv.of_toList_perm hperm).toList_eq

end

end IdTable

namespace Registry

variable {r r' : Registry} {kind : IdKind} {t t' : IdTable} {name : String} {id : UInt16}
  {fault : RegistryError}

/-! ## Both kinds alike -/

def name? (w : Registry) : IdKind → UInt16 → Option String
  | .block => w.blockName?
  | .item => w.itemName?

def id? (r : Registry) : IdKind → String → Option UInt16
  | .block => r.blockId?
  | .item => r.itemId?

def table (r : Registry) : IdKind → IdTable
  | .block => r.blocks
  | .item => r.items

/-- Adds a name of one kind; one that is known already moves. -/
def add (r : Registry) : IdKind → String → UInt16 → Except RegistryError Registry
  | .block => r.withBlock
  | .item => r.withItem

theorem id?_eq (r : Registry) (kind : IdKind) (name : String) :
    r.id? kind name = (r.table kind).id? name := by
  cases kind <;> rfl

theorem name?_eq (r : Registry) (kind : IdKind) (id : UInt16) :
    r.name? kind id = (r.table kind).name? id := by
  cases kind <;> rfl

theorem claim_eq_error_iff :
    claim kind t name id = .error fault ↔
      ∃ holder, t.name? id = some holder ∧ holder ≠ name ∧
        fault = .duplicateId kind id holder name := by
  unfold claim
  cases hclaim : t.claim name id with
  | ok made =>
      have hfree := (IdTable.claim_eq_ok_iff.1 hclaim).1
      simp only [Except.mapError, reduceCtorEq, false_iff]
      rintro ⟨holder, hholder, hne, -⟩
      exact hne (hfree holder hholder)
  | error holder =>
      rcases IdTable.claim_eq_error_iff.1 hclaim with ⟨hholder, hne⟩
      simp only [Except.mapError, Except.error.injEq, hholder, Option.some.injEq]
      constructor
      · rintro rfl
        exact ⟨holder, rfl, hne, rfl⟩
      · rintro ⟨other, rfl, -, rfl⟩
        rfl

theorem claim_eq_ok_iff : claim kind t name id = .ok t' ↔ t.claim name id = .ok t' :=
  Outcome.except_mapError_eq_ok_iff

/-- The registry with another table of one kind. -/
def withTable (r : Registry) (t : IdTable) : IdKind → Registry
  | .block => { r with blocks := t }
  | .item => { r with items := t }

theorem table_withTable (r : Registry) (t : IdTable) (kind other : IdKind) :
    (r.withTable t kind).table other = if other = kind then t else r.table other := by
  cases kind <;> cases other <;> rfl

/-- A name is added by a claim in the table of its kind. -/
theorem add_eq (r : Registry) (kind : IdKind) (name : String) (id : UInt16) :
    r.add kind name id = (claim kind (r.table kind) name id).map fun t => r.withTable t kind := by
  cases kind with
  | block =>
      change (claim .block r.blocks name id >>= fun t => pure { r with blocks := t }) = _
      rw [table]
      cases claim .block r.blocks name id <;> rfl
  | item =>
      change (claim .item r.items name id >>= fun t => pure { r with items := t }) = _
      rw [table]
      cases claim .item r.items name id <;> rfl

theorem add_eq_ok_iff :
    r.add kind name id = .ok r' ↔
      ∃ t, (r.table kind).claim name id = .ok t ∧ r.withTable t kind = r' := by
  have hclaim : ∀ t, (r.table kind).claim name id = .ok t ↔
      claim kind (r.table kind) name id = .ok t := fun t => claim_eq_ok_iff.symm
  simp only [add_eq, hclaim]
  cases claim kind (r.table kind) name id with
  | ok t => simp [Except.map]
  | error fault => simp [Except.map]

theorem add_eq_error_iff :
    r.add kind name id = .error fault ↔
      ∃ holder, r.name? kind id = some holder ∧ holder ≠ name ∧
        fault = .duplicateId kind id holder name := by
  rw [add_eq, name?_eq, ← claim_eq_error_iff]
  cases claim kind (r.table kind) name id with
  | ok t => simp [Except.map]
  | error fault => simp [Except.map]

/-! ## Tables of documents -/

theorem tableOf_append_singleton (kind : IdKind) (pairs : List (String × UInt16))
    (pair : String × UInt16) :
    tableOf kind (pairs ++ [pair]) =
      tableOf kind pairs >>= fun t => claim kind t pair.1 pair.2 := by
  simp only [tableOf, List.foldlM_append, List.foldlM_cons, List.foldlM_nil, bind_pure]

theorem paired_tableOf {pairs : List (String × UInt16)} (made : tableOf kind pairs = .ok t) :
    t.Paired := by
  induction pairs using List.reverseRecOn generalizing t with
  | nil =>
      cases made
      exact IdTable.paired_empty
  | append_singleton pairs pair ih =>
      rw [tableOf_append_singleton, Outcome.except_bind_eq_ok_iff] at made
      rcases made with ⟨before, hbefore, hclaim⟩
      exact (ih hbefore).claim (claim_eq_ok_iff.1 hclaim)

/-- A document is read if both of its tables can be claimed name by name. -/
theorem ofDocument_eq_ok_iff {bytes : List UInt8} :
    ofDocument bytes = .ok r ↔ ∃ blocks items, tables? bytes = some (blocks, items) ∧
      tableOf .block blocks.toList = .ok r.blocks ∧ tableOf .item items.toList = .ok r.items := by
  unfold ofDocument
  cases htables : tables? bytes with
  | none => simp
  | some tables =>
      rcases tables with ⟨blocks, items⟩
      rcases r with ⟨rblocks, ritems⟩
      simp [Outcome.except_bind_eq_ok_iff, pure, Except.pure]

/-! ## Registries that can be made -/

/-- A registry that can be made. -/
inductive Built : Registry → Prop
  | empty : Built .empty
  | ofDocument {bytes : List UInt8} {r : Registry} : Registry.ofDocument bytes = .ok r → Built r
  | withBlock {r r' : Registry} {name : String} {id : UInt16} :
      Built r → r.withBlock name id = .ok r' → Built r'
  | withItem {r r' : Registry} {name : String} {id : UInt16} :
      Built r → r.withItem name id = .ok r' → Built r'

theorem paired_add (h : ∀ kind, (r.table kind).Paired) (kind : IdKind)
    (added : r.add kind name id = .ok r') (other : IdKind) : (r'.table other).Paired := by
  rcases add_eq_ok_iff.1 added with ⟨t, hclaim, rfl⟩
  rw [table_withTable]
  split
  · exact (h kind).claim hclaim
  · exact h other

theorem Built.paired_table (h : r.Built) : ∀ kind, (r.table kind).Paired := by
  induction h with
  | empty =>
      intro kind
      cases kind with
      | block => exact IdTable.paired_empty
      | item => exact IdTable.paired_empty
  | ofDocument made =>
      rcases ofDocument_eq_ok_iff.1 made with ⟨blocks, items, -, hblocks, hitems⟩
      intro kind
      cases kind with
      | block => exact paired_tableOf hblocks
      | item => exact paired_tableOf hitems
  | withBlock _ made ih => exact paired_add ih .block made
  | withItem _ made ih => exact paired_add ih .item made

theorem Built.paired (h : r.Built) : r.blocks.Paired ∧ r.items.Paired :=
  ⟨h.paired_table .block, h.paired_table .item⟩

/-- Names and numbers of one kind are told from each other both ways. -/
theorem Built.id?_eq_some_iff (h : r.Built) :
    r.id? kind name = some id ↔ r.name? kind id = some name := by
  rw [id?_eq, name?_eq]
  exact h.paired_table kind name id

/-- No two numbers have one name. -/
theorem Built.name?_inj (h : r.Built) (kind : IdKind) (a b : UInt16) (n : String)
    (ha : r.name? kind a = some n) (hb : r.name? kind b = some n) : a = b :=
  Option.some.inj ((h.id?_eq_some_iff.2 ha).symm.trans (h.id?_eq_some_iff.2 hb))

/-- No number is that of two names. -/
theorem Built.id?_inj (h : r.Built) (kind : IdKind) {a b : String}
    (ha : r.id? kind a = some id) (hb : r.id? kind b = some id) : a = b :=
  Option.some.inj ((h.id?_eq_some_iff.1 ha).symm.trans (h.id?_eq_some_iff.1 hb))

end Registry

end VoxelSchematic
