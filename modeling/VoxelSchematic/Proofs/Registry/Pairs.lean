import VoxelSchematic.Proofs.IdTable

/-!
# What a registry knows

Each kind of names is told from its numbers and back, one to one, whatever has been added and from
whatever document a registry was read.

* `IdTable.Moved` is what one claim changes: the pair of the name, and nothing that has to do with
  other names and numbers.
* `Registry.exists_tableOf_iff` and `id?_tableOf`: the table of a list of pairs exists if no two names
  share a number, and then it holds these pairs. `fault_of_tableOf` names two that share one.
* `Registry.one_to_one` says all of it of registries and documents.
-/

namespace VoxelSchematic

namespace IdTable

variable {t t' : IdTable} {name : String} {id : UInt16}

/-- What a table has become when a name was paired with a number. -/
structure Moved (t t' : IdTable) (name : String) (id : UInt16) : Prop where
  named : t'.id? name = some id
  numbered : t'.name? id = some name
  /-- The number that the name had before is free. -/
  freed : ∀ former, t.id? name = some former → former ≠ id → t'.name? former = none
  otherNames : ∀ other, other ≠ name → t'.id? other = t.id? other
  otherNumbers : ∀ number, number ≠ id → t.id? name ≠ some number →
    t'.name? number = t.name? number

theorem id?_claim (claimed : t.claim name id = .ok t') (other : String) :
    t'.id? other = if name = other then some id else t.id? other := by
  rcases claim_eq_ok_iff.1 claimed with ⟨-, rfl⟩
  rw [id?, id?, idOf_pair, idOf_release]
  by_cases hname : name = other
  · rw [if_pos hname, if_pos hname]
  · rw [if_neg hname, if_neg hname, if_neg hname]

theorem Paired.name?_claim (h : t.Paired) (claimed : t.claim name id = .ok t') (number : UInt16) :
    t'.name? number =
      if id = number then some name
      else if t.name? number = some name then none else t.name? number := by
  rcases claim_eq_ok_iff.1 claimed with ⟨-, rfl⟩
  exact nameOf_release_pair h name id number

theorem Paired.moved (h : t.Paired) (claimed : t.claim name id = .ok t') :
    t.Moved t' name id where
  named := by rw [id?_claim claimed, if_pos rfl]
  numbered := by rw [h.name?_claim claimed, if_pos rfl]
  freed := fun former hformer hne => by
    have hheld : t.name? former = some name := (h name former).1 hformer
    rw [h.name?_claim claimed, if_neg (Ne.symm hne), if_pos hheld]
  otherNames := fun other hne => by rw [id?_claim claimed, if_neg (Ne.symm hne)]
  otherNumbers := fun number hne hother => by
    have hheld : ¬t.name? number = some name := fun hname => hother ((h name number).2 hname)
    rw [h.name?_claim claimed, if_neg (Ne.symm hne), if_neg hheld]

/-- The size of a table is the number of its pairs. -/
theorem Paired.encard_eq (h : t.Paired) :
    {pair : String × UInt16 | t.id? pair.1 = some pair.2}.encard = t.size := by
  have hpairs : {pair : String × UInt16 | t.id? pair.1 = some pair.2} =
      (t.pairs.toFinset : Set (String × UInt16)) := by
    ext pair
    rw [List.coe_toFinset]
    exact mem_pairs_iff.symm
  rw [hpairs, Set.encard_coe_eq_coe_finsetCard, List.toFinset_card_of_nodup t.nodup_pairs.of_map,
    ← h.size_eq]

end IdTable

namespace Registry

variable {r : Registry} {kind : IdKind} {t : IdTable} {name : String} {id : UInt16}
  {fault : RegistryError} {pairs : List (String × UInt16)}

/-! ## Tables of pairs -/

/-- A table that was claimed pair by pair holds these pairs. -/
theorem id?_tableOf (distinct : (pairs.map Prod.fst).Nodup) (made : tableOf kind pairs = .ok t) :
    t.id? name = some id ↔ (name, id) ∈ pairs := by
  induction pairs using List.reverseRecOn generalizing t with
  | nil =>
      cases made
      simp [IdTable.id?, IdTable.empty]
  | append_singleton pairs pair ih =>
      rcases pair with ⟨last, number⟩
      rw [tableOf_append_singleton, Outcome.except_bind_eq_ok_iff] at made
      rcases made with ⟨before, hbefore, hclaim⟩
      rw [List.map_append, List.nodup_append] at distinct
      rcases distinct with ⟨hpairs, -, happart⟩
      rw [IdTable.id?_claim (claim_eq_ok_iff.1 hclaim), List.mem_append, List.mem_singleton,
        Prod.mk.injEq]
      by_cases hname : last = name
      -- The last name is new, so that its only pair is the last one.
      · subst hname
        have hnew : (last, id) ∉ pairs := fun hmem =>
          happart last (List.mem_map_of_mem hmem) last (by simp) rfl
        simp [hnew, eq_comm]
      · simp [hname, Ne.symm hname, ih hpairs hbefore]

/-- No two names share a number. -/
def Unshared (pairs : List (String × UInt16)) : Prop :=
  ∀ a b id, (a, id) ∈ pairs → (b, id) ∈ pairs → a = b

theorem unshared_append_singleton_iff :
    Unshared (pairs ++ [(name, id)]) ↔
      Unshared pairs ∧ ∀ holder, (holder, id) ∈ pairs → holder = name := by
  unfold Unshared
  simp only [List.mem_append, List.mem_singleton, Prod.mk.injEq]
  constructor
  · intro h
    exact ⟨fun a b number ha hb => h a b number (.inl ha) (.inl hb),
      fun holder hholder => h holder name id (.inl hholder) (.inr ⟨rfl, rfl⟩)⟩
  · rintro ⟨hpairs, hlast⟩ a b number (ha | ⟨rfl, rfl⟩) (hb | ⟨rfl, hid⟩)
    · exact hpairs a b number ha hb
    · exact hlast a (hid ▸ ha)
    · exact (hlast b hb).symm
    · rfl

theorem exists_tableOf_iff (distinct : (pairs.map Prod.fst).Nodup) :
    (∃ t, tableOf kind pairs = .ok t) ↔ Unshared pairs := by
  induction pairs using List.reverseRecOn with
  | nil => exact iff_of_true ⟨.empty, rfl⟩ (by simp [Unshared])
  | append_singleton pairs pair ih =>
      rcases pair with ⟨last, number⟩
      rw [List.map_append, List.nodup_append] at distinct
      rw [tableOf_append_singleton, unshared_append_singleton_iff, ← ih distinct.1]
      simp only [Outcome.except_bind_eq_ok_iff, claim_eq_ok_iff, IdTable.claim_eq_ok_iff]
      -- Whoever holds the last number holds it by one of the pairs before.
      have hholds : ∀ t, tableOf kind pairs = .ok t → ∀ holder,
          t.name? number = some holder ↔ (holder, number) ∈ pairs := fun t ht holder =>
        (paired_tableOf ht holder number).symm.trans (id?_tableOf distinct.1 ht)
      constructor
      · rintro ⟨-, t, ht, hfree, -⟩
        exact ⟨⟨t, ht⟩, fun holder hholder => hfree holder ((hholds t ht holder).2 hholder)⟩
      · rintro ⟨⟨t, ht⟩, hfree⟩
        exact ⟨_, t, ht, fun holder hholder => hfree holder ((hholds t ht holder).1 hholder), rfl⟩

/-- Where there is no table, two names share a number. -/
theorem fault_of_tableOf (distinct : (pairs.map Prod.fst).Nodup)
    (failed : tableOf kind pairs = .error fault) :
    ∃ a b id, (a, id) ∈ pairs ∧ (b, id) ∈ pairs ∧ a ≠ b ∧ fault = .duplicateId kind id a b := by
  induction pairs using List.reverseRecOn with
  | nil => cases failed
  | append_singleton pairs pair ih =>
      rcases pair with ⟨last, number⟩
      rw [List.map_append, List.nodup_append] at distinct
      rw [tableOf_append_singleton] at failed
      cases ht : tableOf kind pairs with
      | error earlier =>
          rw [ht] at failed
          cases failed
          rcases ih distinct.1 ht with ⟨a, b, id, ha, hb, hshared⟩
          exact ⟨a, b, id, List.mem_append_left _ ha, List.mem_append_left _ hb, hshared⟩
      | ok t =>
          rw [ht] at failed
          rcases claim_eq_error_iff.1 failed with ⟨holder, hholder, hne, rfl⟩
          have hmem : (holder, number) ∈ pairs :=
            (id?_tableOf distinct.1 ht).1 ((paired_tableOf ht holder number).2 hholder)
          exact ⟨holder, last, number, List.mem_append_left _ hmem,
            List.mem_append_right _ (List.mem_singleton.2 rfl), hne, rfl⟩

/-! ## Registries and documents -/

/-- The names of one kind that a document states. -/
def namesOf (tables : NameTable × NameTable) : IdKind → NameTable
  | .block => tables.1
  | .item => tables.2

variable {bytes : List UInt8} {tables : NameTable × NameTable}

theorem ofDocument_of_tables (parsed : tables? bytes = some tables) :
    ofDocument bytes = .ok r ↔
      ∀ kind, tableOf kind (namesOf tables kind).toList = .ok (r.table kind) := by
  rw [ofDocument_eq_ok_iff, parsed]
  simp only [Option.some.injEq]
  constructor
  · rintro ⟨blocks, items, rfl, hblocks, hitems⟩ kind
    cases kind with
    | block => exact hblocks
    | item => exact hitems
  · exact fun hmade => ⟨tables.1, tables.2, rfl, hmade .block, hmade .item⟩

theorem nodup_names (names : NameTable) : (names.toList.map Prod.fst).Nodup :=
  IdTable.nodup_pairs { idOf := names }

/-- A table that was made from names knows these names. -/
theorem id?_of_names {names : NameTable} (made : tableOf kind names.toList = .ok t)
    (name : String) : t.id? name = names[name]? := by
  apply Option.ext
  intro id
  rw [id?_tableOf (nodup_names names) made, Std.TreeMap.mem_toList_iff_getElem?_eq_some]

theorem exists_ofDocument_iff (parsed : tables? bytes = some tables) :
    (∃ r, ofDocument bytes = .ok r) ↔ ∀ kind, Unshared (namesOf tables kind).toList := by
  have htable : ∀ kind, Unshared (namesOf tables kind).toList ↔
      ∃ t, tableOf kind (namesOf tables kind).toList = .ok t :=
    fun kind => (exists_tableOf_iff (nodup_names _)).symm
  simp only [ofDocument_of_tables parsed, htable]
  constructor
  · rintro ⟨r, hmade⟩ kind
    exact ⟨_, hmade kind⟩
  · intro hmade
    rcases hmade .block with ⟨blocks, hblocks⟩
    rcases hmade .item with ⟨items, hitems⟩
    refine ⟨⟨blocks, items⟩, fun kind => ?_⟩
    cases kind with
    | block => exact hblocks
    | item => exact hitems

/-- A document that states names is refused for the sake of two of them only. -/
theorem fault_of_ofDocument (parsed : tables? bytes = some tables)
    (failed : ofDocument bytes = .error fault) :
    ∃ kind a b id, (a, id) ∈ (namesOf tables kind).toList ∧
      (b, id) ∈ (namesOf tables kind).toList ∧ a ≠ b ∧ fault = .duplicateId kind id a b := by
  rw [ofDocument, parsed] at failed
  cases hblocks : tableOf .block tables.1.toList with
  | error earlier =>
      simp only [hblocks, bind, Except.bind] at failed
      cases failed
      exact ⟨.block, fault_of_tableOf (nodup_names _) hblocks⟩
  | ok blocks =>
      cases hitems : tableOf .item tables.2.toList with
      | error earlier =>
          simp only [hblocks, hitems, bind, Except.bind] at failed
          cases failed
          exact ⟨.item, fault_of_tableOf (nodup_names _) hitems⟩
      | ok items =>
          simp only [hblocks, hitems, bind, Except.bind] at failed
          cases failed

/-- In a registry that can be made, names and numbers of one kind belong together one to one. Adding a
name fails if another name holds the number, and changes nothing but the pair of the name otherwise. A
document is refused if two of its names share a number; else its names are what is known. -/
theorem one_to_one :
    (∀ r : Registry, r.Built →
      (∀ kind name id, r.id? kind name = some id ↔ r.name? kind id = some name) ∧
      (∀ kind, {pair : String × UInt16 | r.id? kind pair.1 = some pair.2}.encard =
        (r.table kind).size) ∧
      (∀ kind name id fault, r.add kind name id = .error fault ↔
        ∃ holder, r.name? kind id = some holder ∧ holder ≠ name ∧
          fault = .duplicateId kind id holder name) ∧
      ∀ kind name id r', r.add kind name id = .ok r' →
        (r.table kind).Moved (r'.table kind) name id ∧
          ∀ other, other ≠ kind → r'.table other = r.table other) ∧
    ∀ bytes tables, tables? bytes = some tables →
      ((∃ r, ofDocument bytes = .ok r) ↔ ∀ kind, Unshared (namesOf tables kind).toList) ∧
      (∀ r, ofDocument bytes = .ok r → ∀ kind name, r.id? kind name = (namesOf tables kind)[name]?) ∧
      ∀ fault, ofDocument bytes = .error fault →
        ∃ kind a b id, (a, id) ∈ (namesOf tables kind).toList ∧
          (b, id) ∈ (namesOf tables kind).toList ∧ a ≠ b ∧ fault = .duplicateId kind id a b := by
  constructor
  · intro r hr
    refine ⟨fun kind name id => hr.id?_eq_some_iff, fun kind => ?size, fun kind name id fault =>
      add_eq_error_iff, fun kind name id r' hadd => ?added⟩
    case size =>
      simp only [id?_eq]
      exact (hr.paired_table kind).encard_eq
    case added =>
      rcases add_eq_ok_iff.1 hadd with ⟨t, hclaim, rfl⟩
      refine ⟨?_, fun other hother => by rw [table_withTable, if_neg hother]⟩
      rw [table_withTable, if_pos rfl]
      exact (hr.paired_table kind).moved hclaim
  · intro bytes tables parsed
    refine ⟨exists_ofDocument_iff parsed, fun r hread kind name => ?_, fun fault =>
      fault_of_ofDocument parsed⟩
    rw [id?_eq, id?_of_names ((ofDocument_of_tables parsed).1 hread kind)]

/-- A registry in which one name has moved. -/
def stoneRegistry : Registry :=
  ⟨((IdTable.empty.pair "stone" 1).release "stone").pair "stone" 2, .empty⟩

theorem built_stoneRegistry : stoneRegistry.Built :=
  @Built.withBlock _ _ "stone" 2 (@Built.withBlock _ _ "stone" 1 .empty rfl) rfl

/-- A document in which two blocks share a number. -/
def sharedDocument : List UInt8 := "\x7b\"blocks\": \x7b\"b\": 5, \"a\": 5\x7d\x7d".toUTF8.data.toList

theorem tables?_sharedDocument : tables? sharedDocument =
    some ((((∅ : NameTable).insert "b" 5).insert "a" 5), ∅) := by
  cbv

theorem one_to_one_stoneRegistry :
    stoneRegistry.withBlock "dirt" 2 = .error (.duplicateId .block 2 "stone" "dirt") ∧
    (∃ r, stoneRegistry.withBlock "dirt" 1 = .ok r ∧ r.blockName? 1 = some "dirt" ∧
      r.blockName? 2 = some "stone" ∧ r.items = .empty) ∧
    ¬∃ r, ofDocument sharedDocument = .ok r := by
  rcases one_to_one with ⟨hbuilt, hdocument⟩
  rcases hbuilt stoneRegistry built_stoneRegistry with ⟨-, -, hfails, hadded⟩
  have hheld : stoneRegistry.name? .block 2 = some "stone" := by cbv
  have hdirt : (stoneRegistry.table .block).id? "dirt" = none := by cbv
  refine ⟨(hfails .block "dirt" 2 _).2 ⟨"stone", hheld, by decide, rfl⟩, ?moves, ?shares⟩
  case moves =>
    rcases hadded .block "dirt" 1 _ rfl with ⟨hmoved, hitems⟩
    have hstone := hmoved.otherNumbers 2 (by decide) (by simp [hdirt])
    exact ⟨_, rfl, hmoved.numbered, hstone.trans hheld, hitems .item (by decide)⟩
  case shares =>
    rw [(hdocument _ _ tables?_sharedDocument).1]
    intro hunshared
    have hstated : ∀ name ∈ ["a", "b"],
        (name, 5) ∈ (((∅ : NameTable).insert "b" 5).insert "a" 5).toList := by
      simp [Std.TreeMap.mem_toList_iff_getElem?_eq_some, Std.TreeMap.getElem?_insert]
    have hsame := hunshared .block "a" "b" 5 (hstated "a" (by simp)) (hstated "b" (by simp))
    exact absurd hsame (by decide)

end Registry

end VoxelSchematic
