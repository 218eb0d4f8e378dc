import VoxelSchematic.Proofs.Json.Objects
import VoxelSchematic.Proofs.Registry.Pairs

/-!
# Registry documents, there and back

What is written for a registry that can be made is read as the same registry, whatever characters
its names have.

* `read?_toDocument` is the value that a written registry is read as.
* `tables?_toDocument`: from this value, the names of the registry are taken with their numbers.
* `ofText_toDocument`: as no two of them share a number, the registry can be made again.
-/

namespace VoxelSchematic

namespace Json.Value

/-- Names are read as they are. -/
theorem namedMembers?_ofText {α : Type} (value : α → Value) (pairs : List (String × α)) :
    namedMembers? (pairs.map fun pair => (.ofText pair.1, value pair.2)) =
      some (pairs.map fun pair => (pair.1, value pair.2)) := by
  induction pairs with
  | nil => rfl
  | cons pair pairs ih =>
      rw [namedMembers?] at ih ⊢
      rw [List.map_cons, List.mapM_cons, ih, text?_ofText]
      rfl

end Json.Value

namespace Registry

open Json Text

/-! ## What is written -/

/-- A number of a name in a document. -/
def idValue (id : UInt16) : Value := .number (.ofNat id.toNat)

/-- A table of names in a document. -/
def tableValue (t : IdTable) : Value :=
  .object (t.pairs.map fun pair => (.ofText pair.1, idValue pair.2))

theorem reads_tableText (t : IdTable) : Reads (tableText t) (tableValue t) := by
  refine reads_indentedObject 1 ?_
  rw [List.forall₂_map_left_iff, List.forall₂_map_right_iff, List.forall₂_same]
  exact fun pair _ => ⟨rfl, reads_integer pair.2.toNat⟩

/-- A written registry is read as an object with the two tables. -/
theorem read?_toDocument (r : Registry) :
    read? r.toDocument.toUTF8.data.toList = some (.object
      [(.ofText "blocks", tableValue r.blocks), (.ofText "items", tableValue r.items)]) := by
  rw [toList_toUTF8, toDocument, String.toList_ofList]
  exact read?_of_reads (reads_indentedObject 0
    (.cons ⟨rfl, reads_tableText r.blocks⟩ (.cons ⟨rfl, reads_tableText r.items⟩ .nil)))

/-! ## What it means -/

theorem idOf?_idValue (id : UInt16) : idOf? (idValue id) = some id := by
  have hhigh : (id.toNat : Int) ≤ 65535 := Int.ofNat_le.2 (Nat.le_of_lt_succ id.toNat_lt)
  simp [idOf?, idValue, Value.integerIn?, integer?_ofNat, hhigh]

theorem foldl_insert_eq_insertMany (names : NameTable) (pairs : List (String × UInt16)) :
    pairs.foldl (fun table pair => table.insert pair.1 pair.2) names = names.insertMany pairs := by
  induction pairs generalizing names with
  | nil => rw [Std.TreeMap.insertMany_nil, List.foldl_nil]
  | cons pair pairs ih => rw [List.foldl_cons, ih, ← Std.TreeMap.insertMany_cons]

/-- A table is read name by name. -/
theorem nameTable?_tableValue (t : IdTable) :
    nameTable? (some (tableValue t)) = some ((∅ : NameTable).insertMany t.pairs) := by
  rw [← foldl_insert_eq_insertMany]
  simp only [nameTable?, tableValue, Value.namedMembers?_ofText, Option.bind_eq_bind,
    Option.bind_some, List.foldlM_map, idOf?_idValue]
  exact List.foldlM_pure

theorem getElem?_insertMany_pairs (t : IdTable) (name : String) :
    ((∅ : NameTable).insertMany t.pairs)[name]? = t.id? name := by
  have hdistinct : t.pairs.Pairwise fun a b => ¬compare a.1 b.1 = .eq :=
    t.idOf.distinct_keys_toList
  cases hid : t.id? name with
  | some id =>
      exact Std.TreeMap.getElem?_insertMany_list_of_mem Std.ReflOrd.compare_self hdistinct
        (IdTable.mem_pairs_iff.2 hid)
  | none =>
      have hother : (t.pairs.map Prod.fst).contains name = false := by
        rw [← Bool.not_eq_true, List.contains_iff_mem, List.mem_map]
        rintro ⟨pair, hpair, rfl⟩
        have hstated := IdTable.mem_pairs_iff.1 hpair
        rw [hid] at hstated
        cases hstated
      rw [Std.TreeMap.getElem?_insertMany_list_of_contains_eq_false hother]
      rfl

/-- The names and numbers of a registry. -/
def statedTables (r : Registry) : NameTable × NameTable :=
  ((∅ : NameTable).insertMany r.blocks.pairs, (∅ : NameTable).insertMany r.items.pairs)

theorem tables?_toDocument (r : Registry) :
    tables? r.toDocument.toUTF8.data.toList = some r.statedTables := by
  have hfields : (Value.object
      [(.ofText "blocks", tableValue r.blocks), (.ofText "items", tableValue r.items)]).fields?
        ["blocks", "items"] = some [some (tableValue r.blocks), some (tableValue r.items)] := by
    have hnames := Value.namedMembers?_ofText id
      [("blocks", tableValue r.blocks), ("items", tableValue r.items)]
    simp only [List.map_cons, List.map_nil, id_eq] at hnames
    rw [Value.fields?, hnames]
    rfl
  rw [tables?, read?_toDocument]
  simp only [Option.bind_eq_bind, Option.bind_some, hfields, nameTable?_tableValue]
  rfl

theorem getElem?_statedTables (r : Registry) (kind : IdKind) (name : String) :
    (namesOf r.statedTables kind)[name]? = r.id? kind name := by
  cases kind with
  | block => exact getElem?_insertMany_pairs r.blocks name
  | item => exact getElem?_insertMany_pairs r.items name

/-! ## Registries -/

/-- The written form of a registry that can be made is read as a registry that knows the same names
and numbers. -/
theorem ofText_toDocument (r : Registry) (h : r.Built) :
    ∃ r', ofText r.toDocument = .ok r' ∧ r'.same r = true ∧
      ∀ kind, (∀ name, r'.id? kind name = r.id? kind name) ∧
        ∀ id, r'.name? kind id = r.name? kind id := by
  -- Both sides of a table state the same pairs, so that no number is stated under two names.
  have hunshared : ∀ kind, Unshared (namesOf r.statedTables kind).toList := by
    intro kind a b id ha hb
    rw [Std.TreeMap.mem_toList_iff_getElem?_eq_some, getElem?_statedTables] at ha hb
    exact h.id?_inj kind ha hb
  rcases (exists_ofDocument_iff (tables?_toDocument r)).2 hunshared with ⟨r', hread⟩
  have hbuilt : r'.Built := .ofDocument hread
  have hids : ∀ kind name, r'.id? kind name = r.id? kind name := by
    intro kind name
    rw [id?_eq, id?_of_names ((ofDocument_of_tables (tables?_toDocument r)).1 hread kind),
      getElem?_statedTables]
  have hnames : ∀ kind id, r'.name? kind id = r.name? kind id := by
    intro kind id
    apply Option.ext
    intro name
    rw [← hbuilt.id?_eq_some_iff, ← h.id?_eq_some_iff, hids]
  refine ⟨r', hread, ?same, fun kind => ⟨hids kind, hnames kind⟩⟩
  rw [same, hbuilt.paired.1.same h.paired.1 (hnames .block),
    hbuilt.paired.2.same h.paired.2 (hnames .item)]
  rfl

/-- A registry with names that are hard to write. -/
def oddRegistry : Registry :=
  ⟨((((IdTable.empty.pair "" 0).release "\"\\").pair "\"\\" 65535).release "\x01\n").pair
    "\x01\n" 10, IdTable.empty.pair "\u2603" 0⟩

theorem built_oddRegistry : oddRegistry.Built :=
  @Built.withItem _ _ "\u2603" 0 (@Built.withBlock _ _ "\x01\n" 10
    (@Built.withBlock _ _ "\"\\" 65535 (@Built.withBlock _ _ "" 0 .empty rfl) rfl) rfl) rfl

theorem ofText_toDocument_oddRegistry :
    ∃ r, ofText oddRegistry.toDocument = .ok r ∧ r.blockId? "" = some 0 ∧
      r.blockName? 65535 = some "\"\\" ∧ r.blockId? "\x01\n" = some 10 ∧
      r.itemName? 0 = some "\u2603" ∧ r.itemId? "" = none := by
  rcases ofText_toDocument oddRegistry built_oddRegistry with ⟨r, hread, -, hsame⟩
  exact ⟨r, hread, (hsame .block).1 "", (hsame .block).2 65535, (hsame .block).1 "\x01\n",
    (hsame .item).2 0, (hsame .item).1 ""⟩

end Registry

end VoxelSchematic
