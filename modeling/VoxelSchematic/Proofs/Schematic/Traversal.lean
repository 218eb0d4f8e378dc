import VoxelSchematic.Proofs.OrderedMap
import VoxelSchematic.Schematic.IdField

/-!
# Which numbers a traversal asks about

A traversal shows its visitor the same numbers in the same order, whatever the visitor answers.
-/

namespace VoxelSchematic.IdField

/-- Work that passes numbers to a visitor, in any monad. -/
abbrev Walk (α : Type) :=
  ∀ (m : Type → Type) [Monad m], (IdKind → UInt16 → m UInt16) → m α

/-- A walk that asks about the given numbers, one after the other. -/
def Asks {α : Type} (ids : List (IdKind × UInt16)) (walk : Walk α) : Prop :=
  ∀ (m : Type → Type) [Monad m] [LawfulMonad m] (act : IdKind → UInt16 → m Unit)
    (answer : IdKind → UInt16 → UInt16),
    (walk m fun kind id => do act kind id; return answer kind id) = do
      forM ids fun held => act held.1 held.2
      return Id.run (walk Id fun kind id => pure (answer kind id))

section

variable {α β : Type}

theorem Asks.congr {ids : List (IdKind × UInt16)} {walk walk' : Walk α} (h : Asks ids walk)
    (same : ∀ (m : Type → Type) [Monad m] [LawfulMonad m] (visitor : IdKind → UInt16 → m UInt16),
      walk' m visitor = walk m visitor) : Asks ids walk' := by
  intro m _ _ act answer
  rw [same, same]
  exact h m act answer

theorem asks_pure (a : α) : Asks [] (fun _ _ _ => pure a) := by
  intro m _ _ act answer
  simp

theorem Asks.bind {ids ids' : List (IdKind × UInt16)} {walk : Walk α} {next : α → Walk β}
    (h : Asks ids walk) (hnext : ∀ a, Asks ids' (next a)) :
    Asks (ids ++ ids') (fun m _ visitor => walk m visitor >>= fun a => next a m visitor) := by
  intro m _ _ act answer
  simp only [h m act answer, hnext _ m act answer, bind_assoc, pure_bind, List.forM_append]
  rfl

theorem Asks.map {ids : List (IdKind × UInt16)} {walk : Walk α} (h : Asks ids walk) (g : α → β) :
    Asks ids (fun m _ visitor => walk m visitor >>= fun a => pure (g a)) := by
  have hbind := h.bind fun a => asks_pure (g a)
  rwa [List.append_nil] at hbind

/-- A visitor is asked about a number in a field once. -/
theorem asks_visitor (kind : IdKind) (id : UInt16) :
    Asks [(kind, id)] (fun _ _ visitor => visitor kind id) := by
  intro m _ _ act answer
  simp

theorem asks_visit (kind : IdKind) (tag : Tag) :
    ∃ ids, Asks ids (fun _ _ visitor => visit visitor kind tag) := by
  cases tag with
  | short v => exact ⟨_, (asks_visitor kind v.toUInt16).map fun id => Tag.short id.toInt16⟩
  | int v => exact ⟨_, (asks_visitor kind (lowBits v)).map fun id => Tag.int (withLowBits v id)⟩
  | _ => exact ⟨[], asks_pure _⟩

end

/-! ## One step of a traversal -/

section

variable {m : Type → Type} [Monad m] {visitor : IdKind → UInt16 → m UInt16} {key name : String}
  {tag : Tag} {rest : List (String × Tag)}

theorem rewriteNested_cons_of_ne (h : name ≠ key) :
    rewriteNested visitor key ((name, tag) :: rest) = rewriteNested visitor key rest := by
  have hname : (name == key) = false := by simpa using h
  cases tag <;> simp [rewriteNested, hname]

theorem rewriteNested_cons_compound {inner : Compound} :
    rewriteNested visitor key ((key, .compound inner) :: rest) =
      some <$> rewriteTree visitor inner := by
  simp [rewriteNested]

theorem rewriteNested_cons_of_not_compound (h : tag.asCompound? = none) :
    rewriteNested visitor key ((key, tag) :: rest) = pure none := by
  cases tag with
  | compound inner => cases h
  | _ => simp [rewriteNested]

end

mutual

theorem asks_rewriteTree : ∀ tree : Compound,
    ∃ ids, Asks ids (fun _ _ visitor => rewriteTree visitor tree)
  | ⟨entries⟩ => by
      cases hkey : itemKey? ⟨entries⟩ with
      | some key =>
          rcases asks_visit .item (((⟨entries⟩ : Compound).get? key).getD .terminator) with ⟨own, hown⟩
          rcases asks_rewriteNested "tag" entries with ⟨tags, htags⟩
          rcases asks_rewriteNested "d" entries with ⟨ds, hds⟩
          refine ⟨own ++ (tags ++ ds), (hown.bind fun id => htags.bind fun tag => hds.map fun d =>
            insertNested (insertNested ((⟨entries⟩ : Compound).insert key id) "tag" tag) "d" d).congr ?_⟩
          intro m _ _ visitor
          simp only [rewriteTree, hkey]
      | none =>
          rcases asks_rewriteFields (isDoor ⟨entries⟩) entries with ⟨ids, hids⟩
          refine ⟨ids, (hids.map fun entries => (⟨entries⟩ : Compound)).congr ?_⟩
          intro m _ _ visitor
          simp only [rewriteTree, hkey]

theorem asks_rewriteNested (key : String) : ∀ entries : List (String × Tag),
    ∃ ids, Asks ids (fun _ _ visitor => rewriteNested visitor key entries)
  | [] => ⟨[], asks_pure none⟩
  | (name, tag) :: rest => by
      by_cases hname : name = key
      · subst hname
        cases tag with
        | compound inner =>
            rcases asks_rewriteTree inner with ⟨ids, hids⟩
            refine ⟨ids, (hids.map some).congr fun m _ _ visitor => ?_⟩
            rw [rewriteNested_cons_compound, map_eq_pure_bind]
        | _ =>
            exact ⟨[], (asks_pure none).congr fun m _ _ visitor =>
              rewriteNested_cons_of_not_compound rfl⟩
      · rcases asks_rewriteNested key rest with ⟨ids, hids⟩
        exact ⟨ids, hids.congr fun m _ _ visitor => rewriteNested_cons_of_ne hname⟩

theorem asks_rewriteFields (isDoor : Bool) : ∀ entries : List (String × Tag),
    ∃ ids, Asks ids (fun _ _ visitor => rewriteFields visitor isDoor entries)
  | [] => ⟨[], asks_pure []⟩
  | (key, tag) :: rest => by
      rcases asks_rewriteValue (doorField? isDoor key) tag with ⟨own, hown⟩
      rcases asks_rewriteFields isDoor rest with ⟨ids, hids⟩
      exact ⟨own ++ ids, hown.bind fun tag => hids.map fun rest => (key, tag) :: rest⟩

theorem asks_rewriteValue (held : Option IdKind) : ∀ tag : Tag,
    ∃ ids, Asks ids (fun _ _ visitor => rewriteValue visitor held tag)
  | .int v => by
      cases held with
      | none => exact ⟨[], asks_pure _⟩
      | some kind => exact asks_visit kind (.int v)
  | .compound inner => by
      rcases asks_rewriteTree inner with ⟨ids, hids⟩
      refine ⟨ids, (hids.map Tag.compound).congr ?_⟩
      intro m _ _ visitor
      simp [rewriteValue]
  | .list ⟨element, items⟩ => by
      rcases asks_rewriteItems items with ⟨ids, hids⟩
      exact ⟨ids, hids.map fun items => Tag.list ⟨element, items⟩⟩
  | .terminator => ⟨[], asks_pure _⟩
  | .byte _ => ⟨[], asks_pure _⟩
  | .short _ => ⟨[], asks_pure _⟩
  | .long _ => ⟨[], asks_pure _⟩
  | .float _ => ⟨[], asks_pure _⟩
  | .double _ => ⟨[], asks_pure _⟩
  | .byteArray _ => ⟨[], asks_pure _⟩
  | .string _ => ⟨[], asks_pure _⟩
  | .intArray _ => ⟨[], asks_pure _⟩
  | .longArray _ => ⟨[], asks_pure _⟩

theorem asks_rewriteItems : ∀ items : List Tag,
    ∃ ids, Asks ids (fun _ _ visitor => rewriteItems visitor items)
  | [] => ⟨[], asks_pure []⟩
  | tag :: rest => by
      rcases asks_rewriteItems rest with ⟨ids, hids⟩
      cases tag with
      | compound inner =>
          rcases asks_rewriteTree inner with ⟨own, hown⟩
          exact ⟨own ++ ids, hown.bind fun inner => hids.map fun rest => .compound inner :: rest⟩
      | _ => exact ⟨ids, hids.map fun rest => _ :: rest⟩

end

/-- What is rewritten under a key is the compound that stands there. -/
theorem rewriteNested_eq {m : Type → Type} [Monad m] (visitor : IdKind → UInt16 → m UInt16)
    (key : String) (entries : List (String × Tag)) :
    rewriteNested visitor key entries =
      match Compound.getCompound? ⟨entries⟩ key with
      | some inner => some <$> rewriteTree visitor inner
      | none => pure none := by
  induction entries with
  | nil => rfl
  | cons entry rest ih =>
      rcases entry with ⟨name, tag⟩
      unfold Compound.getCompound? Compound.getAs? at ih ⊢
      rw [OrderedMap.get?_cons]
      -- Only the first field of the name counts, for the traversal as for the look-up.
      by_cases hname : name = key
      · subst hname
        cases tag with
        | compound inner => simp [rewriteNested_cons_compound, Tag.asCompound?]
        | _ =>
            rw [rewriteNested_cons_of_not_compound rfl, if_pos rfl]
            rfl
      · rw [rewriteNested_cons_of_ne hname, ih]
        simp [hname]

/-- An item record has the field that makes it one. -/
theorem get?_isSome_of_itemKey? {tree : Compound} {key : String} (h : itemKey? tree = some key) :
    ∃ tag, tree.get? key = some tag := by
  have hnumeric : ∀ field, isNumeric field = true → ∃ tag, field = some tag := by
    intro field hfield
    cases field with
    | none => cases hfield
    | some tag => exact ⟨tag, rfl⟩
  unfold itemKey? at h
  simp only [Bool.and_eq_true] at h
  split at h
  · next hid =>
      cases h
      exact hnumeric _ hid.1.1
  · split at h
    · next hitem =>
        cases h
        exact hnumeric _ hitem.1.1
    · split at h
      · next hint =>
          cases h
          cases hget : tree.get? "id" with
          | none => simp [Compound.getInt?, Compound.getAs?, hget] at hint
          | some tag => exact ⟨tag, rfl⟩
      · cases h

/-! ## Numbers that stay as they are -/

/-- The visitor that leaves every number as it is. -/
abbrev leave : IdKind → UInt16 → Id UInt16 := fun _ id => pure id

theorem withLowBits_lowBits (v : Int32) : withLowBits v (lowBits v) = v := by
  have hmask : ∀ (i : Nat) (hi : i < 32), (0xFFFF0000 : UInt32).toBitVec[i] = decide (16 ≤ i) := by
    decide
  have hlow : ∀ x : UInt32, x.toUInt16.toUInt32.toBitVec = (x.toBitVec.setWidth 16).setWidth 32 :=
    fun x => rfl
  have hbits : (v.toUInt32 &&& 0xFFFF0000) ||| v.toUInt32.toUInt16.toUInt32 = v.toUInt32 := by
    apply UInt32.toBitVec_inj.1
    rw [UInt32.toBitVec_or, UInt32.toBitVec_and, hlow]
    apply BitVec.eq_of_getElem_eq
    intro i hi
    rw [BitVec.getElem_or, BitVec.getElem_and, hmask i hi]
    -- The high half comes from the mask and the low half from the number.
    by_cases h : 16 ≤ i
    · simp [h]
    · have hlt : i < 16 := Nat.not_le.1 h
      simp [h, hlt, BitVec.getLsbD_eq_getElem hi]
  rw [withLowBits, lowBits, hbits]
  simp

theorem visit_leave (kind : IdKind) (tag : Tag) : visit leave kind tag = pure tag := by
  cases tag with
  | short v => simp [visit]
  | int v => simp [visit, withLowBits_lowBits]
  | _ => rfl

theorem insertNested_getCompound? (tree : Compound) (key : String) :
    insertNested tree key (Compound.getCompound? tree key) = tree := by
  unfold Compound.getCompound? Compound.getAs?
  cases hget : tree.get? key with
  | none => rfl
  | some tag =>
      cases tag with
      | compound inner => exact OrderedMap.insert_of_get? hget
      | _ => rfl

mutual

theorem rewriteTree_leave : ∀ tree : Compound, rewriteTree leave tree = pure tree
  | ⟨entries⟩ => by
      cases hkey : itemKey? ⟨entries⟩ with
      | some key =>
          rcases get?_isSome_of_itemKey? hkey with ⟨tag, hget⟩
          have hsame : (⟨entries⟩ : Compound).insert key tag = ⟨entries⟩ :=
            OrderedMap.insert_of_get? hget
          simp only [rewriteTree, hkey, hget, Option.getD_some, visit_leave,
            rewriteNested_leave _ entries, pure_bind, hsame, insertNested_getCompound?]
      | none =>
          simp only [rewriteTree, hkey, rewriteFields_leave _ entries, pure_bind]

theorem rewriteNested_leave (key : String) : ∀ entries : List (String × Tag),
    rewriteNested leave key entries = pure (Compound.getCompound? ⟨entries⟩ key)
  | [] => rfl
  | (name, tag) :: rest => by
      have hrest := rewriteNested_leave key rest
      unfold Compound.getCompound? Compound.getAs? at hrest ⊢
      rw [OrderedMap.get?_cons]
      by_cases hname : name = key
      · subst hname
        cases tag with
        | compound inner =>
            rw [rewriteNested_cons_compound, rewriteTree_leave inner]
            simp [Tag.asCompound?]
        | _ =>
            rw [rewriteNested_cons_of_not_compound rfl, if_pos rfl]
            rfl
      · rw [rewriteNested_cons_of_ne hname, hrest, if_neg hname]

theorem rewriteFields_leave (isDoor : Bool) : ∀ entries : List (String × Tag),
    rewriteFields leave isDoor entries = pure entries
  | [] => rfl
  | (key, tag) :: rest => by
      rw [rewriteFields, rewriteValue_leave _ tag, rewriteFields_leave isDoor rest]
      rfl

theorem rewriteValue_leave (held : Option IdKind) : ∀ tag : Tag,
    rewriteValue leave held tag = pure tag
  | .int v => by
      cases held with
      | none => rfl
      | some kind => exact visit_leave kind (.int v)
  | .compound inner => by
      rw [rewriteValue, rewriteTree_leave inner]
      rfl
  | .list ⟨element, items⟩ => by
      rw [rewriteValue, rewriteItems_leave items]
      rfl
  | .terminator => rfl
  | .byte _ => rfl
  | .short _ => rfl
  | .long _ => rfl
  | .float _ => rfl
  | .double _ => rfl
  | .byteArray _ => rfl
  | .string _ => rfl
  | .intArray _ => rfl
  | .longArray _ => rfl

theorem rewriteItems_leave : ∀ items : List Tag, rewriteItems leave items = pure items
  | [] => rfl
  | tag :: rest => by
      have hrest := rewriteItems_leave rest
      cases tag with
      | compound inner =>
          rw [rewriteItems, rewriteTree_leave inner, hrest]
          rfl
      | _ =>
          rw [rewriteItems, hrest]
          · rfl
          · nofun

end

/-! ## The numbers of a walk -/

/-- Writes a number down and leaves it as it is. -/
def note (kind : IdKind) (id : UInt16) : StateM (List (IdKind × UInt16)) UInt16 := do
  modify fun noted => noted ++ [(kind, id)]
  return id

/-- The numbers that a walk asks about. -/
def asked {α : Type} (walk : Walk α) : List (IdKind × UInt16) :=
  ((walk (StateM (List (IdKind × UInt16))) note).run []).2

section

variable {α : Type} {ids : List (IdKind × UInt16)} {walk : Walk α}

theorem run_forM_note (ids noted : List (IdKind × UInt16)) :
    (forM ids fun held => modify fun noted => noted ++ [(held.1, held.2)] :
      StateM (List (IdKind × UInt16)) Unit).run noted = ((), noted ++ ids) := by
  -- What is noted already stays in front.
  induction ids generalizing noted with
  | nil => simp; rfl
  | cons held rest ih =>
      have hrest := ih (noted ++ [held])
      simp only [List.append_assoc, List.singleton_append] at hrest
      exact hrest

/-- The numbers of a walk are determined. -/
theorem Asks.asked_eq (h : Asks ids walk) : asked walk = ids := by
  have hrun : walk (StateM (List (IdKind × UInt16))) note = _ :=
    h (StateM (List (IdKind × UInt16))) (fun kind id => modify fun noted => noted ++ [(kind, id)])
      (fun _ id => id)
  rw [asked, hrun, StateT.run_bind, run_forM_note]
  rfl

theorem Asks.asks_asked (h : Asks ids walk) : Asks (asked walk) walk := by
  rw [h.asked_eq]
  exact h

/-- What a walk makes of pure answers depends on the answers to its questions only. -/
theorem Asks.run_congr {f g : IdKind → UInt16 → UInt16} (h : Asks ids walk)
    (same : ∀ held ∈ ids, f held.1 held.2 = g held.1 held.2) :
    Id.run (walk Id fun kind id => pure (f kind id)) =
      Id.run (walk Id fun kind id => pure (g kind id)) := by
  -- In `Option`, a visitor that fails where the answers differ cannot tell them apart.
  let act : IdKind → UInt16 → Option Unit :=
    fun kind id => if f kind id = g kind id then some () else none
  have hvisitor : (fun kind id => do act kind id; return f kind id : IdKind → UInt16 → Option UInt16) =
      fun kind id => do act kind id; return g kind id := by
    funext kind id
    by_cases hsame : f kind id = g kind id
    · simp [hsame]
    · simp [act, hsame]
  have hacts : (forM ids fun held => act held.1 held.2) = some () := by
    clear h
    induction ids with
    | nil => rfl
    | cons held rest ih =>
        have hheld : act held.1 held.2 = some () := if_pos (same held List.mem_cons_self)
        have hrest := ih fun other hother => same other (List.mem_cons_of_mem held hother)
        rw [List.forM_cons, hheld, hrest]
        rfl
  have hf := h Option act f
  have hg := h Option act g
  rw [hacts] at hf hg
  have hsome := hf.symm.trans ((congrArg (walk Option) hvisitor).trans hg)
  simpa using hsome

end

/-- The numbers in one field of a tree that is no item record. -/
def fieldIds (isDoor : Bool) (entry : String × Tag) : List (IdKind × UInt16) :=
  asked fun _ _ visitor => rewriteValue visitor (doorField? isDoor entry.1) entry.2

theorem asks_fieldIds (isDoor : Bool) (entries : List (String × Tag)) :
    Asks (entries.flatMap (fieldIds isDoor))
      (fun _ _ visitor => rewriteFields visitor isDoor entries) := by
  induction entries with
  | nil => exact asks_pure []
  | cons entry rest ih =>
      rcases entry with ⟨key, tag⟩
      rcases asks_rewriteValue (doorField? isDoor key) tag with ⟨own, hown⟩
      rw [List.flatMap_cons]
      exact hown.asks_asked.bind fun tag => ih.map fun rest => (key, tag) :: rest

/-- The numbers under a key of an item record. -/
def nestedIds (inner : Option Compound) : List (IdKind × UInt16) :=
  match inner with
  | some inner => asked fun _ _ visitor => rewriteTree visitor inner
  | none => []

theorem asks_nestedIds (key : String) (entries : List (String × Tag)) :
    Asks (nestedIds (Compound.getCompound? ⟨entries⟩ key))
      (fun _ _ visitor => rewriteNested visitor key entries) := by
  cases hinner : Compound.getCompound? ⟨entries⟩ key with
  | none =>
      refine (asks_pure none).congr fun m _ _ visitor => ?_
      rw [rewriteNested_eq, hinner]
  | some inner =>
      rcases asks_rewriteTree inner with ⟨ids, hids⟩
      refine (hids.asks_asked.map some).congr fun m _ _ visitor => ?_
      rw [rewriteNested_eq, hinner]
      exact map_eq_pure_bind ..

end VoxelSchematic.IdField

namespace VoxelSchematic.Compound

open IdField

/-- The numbers in a tree, in the order in which a traversal comes to them. -/
def heldIds (tree : Compound) : List (IdKind × UInt16) :=
  asked fun _ _ visitor => tree.rewriteIds visitor

/-- A tree with pure answers in the place of its numbers. -/
def translateIds (f : IdKind → UInt16 → UInt16) (tree : Compound) : Compound :=
  Id.run (tree.rewriteIds fun kind id => pure (f kind id))

theorem asks_heldIds (tree : Compound) :
    Asks tree.heldIds fun _ _ visitor => tree.rewriteIds visitor := by
  rcases asks_rewriteTree tree with ⟨ids, hids⟩
  exact Asks.asks_asked hids

/-- An item record holds its own number and those of the two compounds inside it. -/
theorem heldIds_of_item {tree : Compound} {key : String} (h : itemKey? tree = some key) :
    tree.heldIds =
      asked (fun _ _ visitor => visit visitor .item ((tree.get? key).getD .terminator)) ++
        (nestedIds (tree.getCompound? "tag") ++ nestedIds (tree.getCompound? "d")) := by
  rcases tree with ⟨entries⟩
  rcases asks_visit .item (((⟨entries⟩ : Compound).get? key).getD .terminator) with ⟨own, hown⟩
  have hwalk := hown.asks_asked.bind fun id => (asks_nestedIds "tag" entries).bind fun tag =>
    (asks_nestedIds "d" entries).map fun d =>
      insertNested (insertNested ((⟨entries⟩ : Compound).insert key id) "tag" tag) "d" d
  refine (hwalk.congr fun m _ _ visitor => ?_).asked_eq
  simp only [rewriteIds, rewriteTree, h]

/-- Any other tree holds the numbers of its fields. -/
theorem heldIds_of_not_item {tree : Compound} (h : itemKey? tree = none) :
    tree.heldIds = tree.entries.flatMap (fieldIds (isDoor tree)) := by
  rcases tree with ⟨entries⟩
  have hwalk := (asks_fieldIds (isDoor ⟨entries⟩) entries).map fun entries => (⟨entries⟩ : Compound)
  refine (hwalk.congr fun m _ _ visitor => ?_).asked_eq
  simp only [rewriteIds, rewriteTree, h]

theorem translateIds_congr {tree : Compound} {f g : IdKind → UInt16 → UInt16}
    (h : ∀ held ∈ tree.heldIds, f held.1 held.2 = g held.1 held.2) :
    tree.translateIds f = tree.translateIds g :=
  (asks_heldIds tree).run_congr h

/-- Numbers that stay as they are leave the tree as it is. -/
theorem translateIds_id (tree : Compound) : tree.translateIds (fun _ id => id) = tree :=
  rewriteTree_leave tree

theorem convertIds_eq (tree : Compound) (c : Conversion) :
    tree.convertIds c = tree.translateIds c.translate := rfl

section

variable {ε : Type} (registry : Registry)

/-- Records the name of a number in the state. -/
def recordAct (kind : IdKind) (id : UInt16) : StateT RemapTable (Telling ε) Unit := fun table => do
  return ((), ← recordName registry kind id table)

theorem run_forM_recordAct (ids : List (IdKind × UInt16)) (table : RemapTable) :
    (forM ids fun held => recordAct registry held.1 held.2 :
        StateT RemapTable (Telling ε) Unit).run table =
      (fun table => ((), table)) <$>
        ids.foldlM (fun table held => recordName registry held.1 held.2 table) table := by
  -- Each number is recorded in the table that the ones before it left.
  induction ids generalizing table with
  | nil => simp
  | cons held rest ih =>
      rw [List.forM_cons, StateT.run_bind, List.foldlM_cons, map_bind]
      simp only [ih]
      simp [recordAct, StateT.run]

/-- Recording a tree is recording its numbers, one after the other. -/
theorem recordIds_eq_foldlM (tree : Compound) (table : RemapTable) :
    (tree.recordIds registry table : Telling ε RemapTable) =
      tree.heldIds.foldlM (fun table held => recordName registry held.1 held.2 table) table := by
  have hvisitor : (recordId registry : IdKind → UInt16 → StateT RemapTable (Telling ε) UInt16) =
      fun kind id => do recordAct registry kind id; return id := by
    funext kind id
    apply StateT.ext
    intro table
    rw [StateT.run_bind]
    simp [recordId, recordAct, StateT.run]
    rfl
  have hrun : (tree.rewriteIds (fun kind id => do recordAct registry kind id; return id) :
      StateT RemapTable (Telling ε) Compound) = _ :=
    asks_heldIds tree (StateT RemapTable (Telling ε)) (recordAct registry) fun _ id => id
  rw [recordIds, hvisitor, hrun, StateT.run_bind, run_forM_recordAct]
  simp

end

end VoxelSchematic.Compound
