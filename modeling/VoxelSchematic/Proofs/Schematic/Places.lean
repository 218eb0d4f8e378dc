import VoxelSchematic.Proofs.Tag.Fields
import VoxelSchematic.Proofs.Tag.Paths
import VoxelSchematic.Proofs.Schematic.Translation

/-!
# Where the numbers of a tree stand

* `Compound.idPlaces` lists the numbers that a traversal comes to, each with the path to it.
* `settle` puts numbers into places, and `rewriteTree_eq` says that a traversal, whatever its
  visitor does, asks for the number of one place after the other and settles the answers.
-/

namespace VoxelSchematic

open IdField

/-- The number of a short or an int. -/
def Tag.idNumber? : Tag → Option UInt16
  | .short v => some v.toUInt16
  | .int v => some (lowBits v)
  | _ => none

/-- A short or an int with another number. -/
def Tag.withIdNumber (id : UInt16) : Tag → Tag
  | .short _ => .short id.toInt16
  | .int v => .int (withLowBits v id)
  | tag => tag

theorem Tag.withIdNumber_of_idNumber? {tag : Tag} (h : tag.idNumber? = none) (id : UInt16) :
    tag.withIdNumber id = tag := by
  cases tag with
  | short v => cases h
  | int v => cases h
  | _ => rfl

theorem Tag.idNumber?_withChildren {tag : Tag} (h : tag.idNumber? = none) (tags : List Tag) :
    (tag.withChildren tags).idNumber? = none := by
  cases tag with
  | short v => cases h
  | int v => cases h
  | _ => rfl

/-- A number in a tree and the path to it. -/
structure IdPlace where
  kind : IdKind
  id : UInt16
  path : List Nat
deriving Repr, DecidableEq

namespace IdPlace

/-- A place in the child at a position, seen from above. -/
def below (i : Nat) (place : IdPlace) : IdPlace := { place with path := i :: place.path }

/-- A path into a row of tags, when the row gets one more in front. -/
def nextPath : List Nat → List Nat
  | [] => []
  | i :: path => (i + 1) :: path

/-- A place in a row of tags, when the row gets one more in front. -/
def next (place : IdPlace) : IdPlace := { place with path := nextPath place.path }

/-- A place with another number. -/
def answered (place : IdPlace) (id : UInt16) : IdPlace := { place with id := id }

/-- Asks the visitor about the number of a place. -/
def ask {m : Type → Type} [Monad m] (visitor : IdKind → UInt16 → m UInt16) (place : IdPlace) :
    m IdPlace := do
  return place.answered (← visitor place.kind place.id)

end IdPlace

namespace IdField

/-! ## The places -/

/-- The place of a number that a visitor is asked about. -/
def placesOfNumber (kind : IdKind) (tag : Tag) : List IdPlace :=
  match tag.idNumber? with
  | some id => [⟨kind, id, []⟩]
  | none => []

/-- The places in the value of a field, seen from the compound. -/
def atSlot (fields : Compound) (key : String) (places : List IdPlace) : List IdPlace :=
  places.map (IdPlace.below ((fields.slot? key).getD 0))

mutual

/-- The places of a tree, in the order of the traversal. -/
def placesOfTree : Compound → List IdPlace
  | ⟨entries⟩ =>
      match itemKey? ⟨entries⟩ with
      | some key =>
          atSlot ⟨entries⟩ key
              (placesOfNumber .item (((⟨entries⟩ : Compound).get? key).getD .terminator)) ++
            (atSlot ⟨entries⟩ "tag" (placesOfNested "tag" entries) ++
              atSlot ⟨entries⟩ "d" (placesOfNested "d" entries))
      | none => placesOfFields (isDoor ⟨entries⟩) entries

/-- The places of the compound under a key, seen from that compound. -/
def placesOfNested (key : String) : List (String × Tag) → List IdPlace
  | [] => []
  | (name, tag) :: rest =>
      if name == key then
        match tag with
        | .compound inner => placesOfTree inner
        | _ => []
      else placesOfNested key rest

/-- The places in the fields of a tree that is no item record. -/
def placesOfFields (isDoor : Bool) : List (String × Tag) → List IdPlace
  | [] => []
  | (key, tag) :: rest =>
      (placesOfValue (doorField? isDoor key) tag).map (IdPlace.below 0) ++
        (placesOfFields isDoor rest).map IdPlace.next

/-- The places in a value; an int is one only where its field says so. -/
def placesOfValue (held : Option IdKind) : Tag → List IdPlace
  | .int v =>
      match held with
      | some kind => placesOfNumber kind (.int v)
      | none => []
  | .compound inner => placesOfTree inner
  | .list ⟨_, items⟩ => placesOfItems items
  | _ => []

/-- The places in the elements of a list. -/
def placesOfItems : List Tag → List IdPlace
  | [] => []
  | .compound inner :: rest =>
      (placesOfTree inner).map (IdPlace.below 0) ++ (placesOfItems rest).map IdPlace.next
  | _ :: rest => (placesOfItems rest).map IdPlace.next

end

/-! ## Numbers put into places -/

/-- Puts the numbers of places into the tree. -/
def settle (placed : List IdPlace) (tag : Tag) : Tag :=
  placed.foldl (fun tag place => tag.amendAt (Tag.withIdNumber place.id) place.path) tag

/-- Changes a tag that stands in a row. -/
def amendRow (f : Tag → Tag) (tags : List Tag) : List Nat → List Tag
  | [] => tags
  | i :: path => tags.modify i fun tag => tag.amendAt f path

/-- Puts the numbers of places into a row of tags. -/
def settleRow (placed : List IdPlace) (tags : List Tag) : List Tag :=
  placed.foldl (fun tags place => amendRow (Tag.withIdNumber place.id) tags place.path) tags

section

variable {placed others : List IdPlace} {tag : Tag} {tags : List Tag} {i : Nat}

theorem settle_append : settle (placed ++ others) tag = settle others (settle placed tag) :=
  List.foldl_append

theorem settleRow_append :
    settleRow (placed ++ others) tags = settleRow others (settleRow placed tags) :=
  List.foldl_append

theorem settleRow_below :
    settleRow (placed.map (IdPlace.below i)) tags = tags.modify i (settle placed) := by
  induction placed generalizing tags with
  | nil => exact (List.modify_id i tags).symm
  | cons place rest ih =>
      calc
        settleRow ((place :: rest).map (IdPlace.below i)) tags =
            settleRow (rest.map (IdPlace.below i)) (tags.modify i fun tag =>
              tag.amendAt (Tag.withIdNumber place.id) place.path) := rfl
        _ = (tags.modify i fun tag =>
              tag.amendAt (Tag.withIdNumber place.id) place.path).modify i (settle rest) := ih
        _ = tags.modify i (settle (place :: rest)) := List.modify_modify_eq ..

theorem settleRow_next :
    settleRow (placed.map IdPlace.next) (tag :: tags) = tag :: settleRow placed tags := by
  induction placed generalizing tags with
  | nil => rfl
  | cons place rest ih =>
      rcases place with ⟨kind, id, path⟩
      cases path with
      | nil => exact ih
      | cons i path => exact ih

/-- The places of the first tag and those behind it. -/
theorem settleRow_cons :
    settleRow (placed.map (IdPlace.below 0) ++ others.map IdPlace.next) (tag :: tags) =
      settle placed tag :: settleRow others tags := by
  calc
    settleRow (placed.map (IdPlace.below 0) ++ others.map IdPlace.next) (tag :: tags) =
        settleRow (others.map IdPlace.next) ((tag :: tags).modify 0 (settle placed)) := by
          rw [settleRow_append, settleRow_below]
    _ = settle placed tag :: settleRow others tags := settleRow_next

/-- In a tag that is no number itself, all places are in its children. -/
theorem settle_of_idNumber? (h : tag.idNumber? = none) :
    settle placed tag = tag.withChildren (settleRow placed tag.children) := by
  induction placed generalizing tag with
  | nil => exact (Tag.withChildren_children tag).symm
  | cons place rest ih =>
      rcases place with ⟨kind, id, path⟩
      cases path with
      | nil =>
          have hsame : tag.amendAt (Tag.withIdNumber id) [] = tag := Tag.withIdNumber_of_idNumber? h id
          calc
            settle (⟨kind, id, []⟩ :: rest) tag = settle rest tag := congrArg (settle rest) hsame
            _ = tag.withChildren (settleRow rest tag.children) := ih h
      | cons i path =>
          let row := tag.children.modify i fun child => child.amendAt (Tag.withIdNumber id) path
          have hlength : row.length = tag.children.length := List.length_modify ..
          calc
            settle (⟨kind, id, i :: path⟩ :: rest) tag = settle rest (tag.withChildren row) := rfl
            _ = (tag.withChildren row).withChildren
                  (settleRow rest (tag.withChildren row).children) :=
                  ih (Tag.idNumber?_withChildren h row)
            _ = tag.withChildren (settleRow rest row) := by
                  rw [Tag.withChildren_withChildren hlength, Tag.children_withChildren hlength]

theorem settle_list {l : TagList} :
    settle placed (.list l) = .list ⟨l.element, settleRow placed l.items⟩ :=
  settle_of_idNumber? rfl

end

end IdField

namespace Compound

/-- A compound with the numbers of places put into it. -/
def settled (fields : Compound) (placed : List IdPlace) : Compound :=
  ⟨List.zipWith (fun entry value => (entry.1, value)) fields.entries
    (settleRow placed fields.values)⟩

variable {fields : Compound} {placed others : List IdPlace} {key : String} {tag : Tag}

theorem settle_compound : settle placed (.compound fields) = .compound (fields.settled placed) :=
  settle_of_idNumber? rfl

theorem settled_nil : fields.settled [] = fields := by
  apply Tag.compound.inj
  rw [← settle_compound]
  rfl

theorem settled_append :
    fields.settled (placed ++ others) = (fields.settled placed).settled others := by
  apply Tag.compound.inj
  rw [← settle_compound, ← settle_compound, settle_append, settle_compound]

theorem settled_cons {rest : List (String × Tag)} :
    Compound.settled ⟨(key, tag) :: rest⟩
        (placed.map (IdPlace.below 0) ++ others.map IdPlace.next) =
      ⟨(key, settle placed tag) :: (Compound.settled ⟨rest⟩ others).entries⟩ := by
  have hrow : settleRow (placed.map (IdPlace.below 0) ++ others.map IdPlace.next)
      (tag :: rest.map Prod.snd) = settle placed tag :: settleRow others (rest.map Prod.snd) :=
    settleRow_cons
  simp only [settled, OrderedMap.values, List.map_cons, hrow, List.zipWith_cons_cons]

/-- Places in the value of a field change that field. -/
theorem settled_atSlot (h : fields.get? key = some tag) :
    fields.settled (atSlot fields key placed) = fields.insert key (settle placed tag) := by
  rcases OrderedMap.slot?_of_get? h with ⟨i, hslot, hentry⟩
  have hbound := (List.getElem?_eq_some_iff.1 hentry).1
  have hrow : settleRow (atSlot fields key placed) fields.values =
      fields.values.modify i (settle placed) := by
    rw [atSlot, hslot]
    exact settleRow_below
  have hinsert : fields.insert key (settle placed tag) =
      ⟨fields.entries.set i (key, settle placed tag)⟩ := by
    simp only [OrderedMap.insert, hslot]
  rw [hinsert, settled, hrow]
  congr 1
  apply List.ext_getElem (by simp [OrderedMap.values])
  intro j hj _
  simp only [OrderedMap.values, List.getElem_zipWith, List.getElem_modify, List.getElem_map,
    List.getElem_set]
  -- Only the slot of the key changes.
  by_cases hij : i = j
  · subst hij
    have hhere : fields.entries[i] = (key, tag) := (List.getElem?_eq_some_iff.1 hentry).2
    simp [hhere]
  · simp [hij]

end Compound

namespace IdField

/-! ## What a traversal does -/

section

variable {m : Type → Type} [Monad m] (visitor : IdKind → UInt16 → m UInt16)

/-- Asks the visitor about one place after the other. -/
def askAll (places : List IdPlace) : m (List IdPlace) := places.mapM (IdPlace.ask visitor)

variable [LawfulMonad m] {places others : List IdPlace}

theorem askAll_append :
    askAll visitor (places ++ others) = do
      let placed ← askAll visitor places
      let behind ← askAll visitor others
      return placed ++ behind :=
  List.mapM_append

/-- The visitor does not see where a number stands. -/
theorem askAll_map {move : IdPlace → IdPlace}
    (hmove : ∀ place, IdPlace.ask visitor (move place) = move <$> IdPlace.ask visitor place) :
    askAll visitor (places.map move) = List.map move <$> askAll visitor places := by
  induction places with
  | nil => simp [askAll]
  | cons place rest ih =>
      unfold askAll at ih ⊢
      rw [List.map_cons, List.mapM_cons, hmove, ih, List.mapM_cons]
      simp only [map_eq_pure_bind, bind_assoc, pure_bind, List.map_cons]

theorem askAll_below (i : Nat) :
    askAll visitor (places.map (IdPlace.below i)) =
      List.map (IdPlace.below i) <$> askAll visitor places := by
  apply askAll_map
  intro place
  simp only [IdPlace.ask, map_eq_pure_bind, bind_assoc, pure_bind]
  rfl

theorem askAll_next :
    askAll visitor (places.map IdPlace.next) = List.map IdPlace.next <$> askAll visitor places := by
  apply askAll_map
  intro place
  simp only [IdPlace.ask, map_eq_pure_bind, bind_assoc, pure_bind]
  rfl

theorem visit_eq (kind : IdKind) (tag : Tag) :
    visit visitor kind tag = do
      let placed ← askAll visitor (placesOfNumber kind tag)
      return settle placed tag := by
  cases tag with
  | short v => simp [visit, askAll, placesOfNumber, Tag.idNumber?, IdPlace.ask, settle,
      IdPlace.answered, Tag.amendAt, Tag.withIdNumber]
  | int v => simp [visit, askAll, placesOfNumber, Tag.idNumber?, IdPlace.ask, settle,
      IdPlace.answered, Tag.amendAt, Tag.withIdNumber]
  | _ => simp [visit, askAll, placesOfNumber, Tag.idNumber?, settle]

theorem placesOfNested_cons_of_ne {key name : String} {tag : Tag} {rest : List (String × Tag)}
    (h : name ≠ key) : placesOfNested key ((name, tag) :: rest) = placesOfNested key rest := by
  have hname : (name == key) = false := by simpa using h
  cases tag <;> simp [placesOfNested, hname]

theorem placesOfNested_cons_compound {key : String} {inner : Compound}
    {rest : List (String × Tag)} :
    placesOfNested key ((key, .compound inner) :: rest) = placesOfTree inner := by
  simp [placesOfNested]

theorem placesOfNested_cons_of_not_compound {key : String} {tag : Tag}
    {rest : List (String × Tag)} (h : tag.asCompound? = none) :
    placesOfNested key ((key, tag) :: rest) = [] := by
  cases tag with
  | compound inner => cases h
  | _ => simp [placesOfNested]

/-- An item record has its number under one of two names. -/
theorem eq_of_itemKey? {tree : Compound} {key : String} (h : itemKey? tree = some key) :
    key = "id" ∨ key = "Item" := by
  unfold itemKey? at h
  simp only at h
  split at h
  · exact .inl (Option.some.inj h).symm
  · split at h
    · exact .inr (Option.some.inj h).symm
    · split at h
      · exact .inl (Option.some.inj h).symm
      · cases h

/-- The places under a key are those of the compound that stands there. -/
theorem placesOfNested_eq (key : String) (entries : List (String × Tag)) :
    placesOfNested key entries =
      match Compound.getCompound? ⟨entries⟩ key with
      | some inner => placesOfTree inner
      | none => [] := by
  induction entries with
  | nil => rfl
  | cons entry rest ih =>
      rcases entry with ⟨name, tag⟩
      unfold Compound.getCompound? Compound.getAs? at ih ⊢
      rw [OrderedMap.get?_cons]
      by_cases hname : name = key
      · subst hname
        cases tag with
        | compound inner => simp [placesOfNested_cons_compound, Tag.asCompound?]
        | _ =>
            rw [placesOfNested_cons_of_not_compound rfl, if_pos rfl]
            rfl
      · rw [placesOfNested_cons_of_ne hname, ih, if_neg hname]

/-- The field of a name is where it was, with the value that it had. -/
def Keeps (fields written : Compound) (name : String) : Prop :=
  written.slot? name = fields.slot? name ∧ written.get? name = fields.get? name

theorem Keeps.insert {fields written : Compound} {key name : String} (h : Keeps fields written name)
    (hne : key ≠ name) (value : Tag) : Keeps fields (OrderedMap.insert written key value) name := by
  have hget : (OrderedMap.insert written key value).get? name = written.get? name := by
    rw [OrderedMap.get?_insert, if_neg hne]
  exact ⟨(OrderedMap.slot?_insert_of_ne hne).trans h.1, hget.trans h.2⟩

theorem Keeps.insertNested {fields written : Compound} {key name : String}
    (h : Keeps fields written name) (hne : key ≠ name) (inner : Option Compound) :
    Keeps fields (insertNested written key inner) name := by
  cases inner with
  | none => exact h
  | some inner => exact h.insert hne (.compound inner)

/-- A compound of an item record is rewritten in its place. -/
theorem bind_insertNested {fields written : Compound} {key : String} (next : Compound → m Compound)
    (hkeeps : Keeps fields written key)
    (hnested : rewriteNested visitor key fields.entries = do
      let placed ← askAll visitor (placesOfNested key fields.entries)
      return (fields.getCompound? key).map fun inner => inner.settled placed) :
    (do
      let inner ← rewriteNested visitor key fields.entries
      next (insertNested written key inner)) =
    (do
      let placed ← askAll visitor (atSlot fields key (placesOfNested key fields.entries))
      next (written.settled placed)) := by
  rw [hnested, atSlot, askAll_below, placesOfNested_eq]
  cases hinner : fields.getCompound? key with
  | none => simp [askAll, insertNested, Compound.settled_nil]
  | some inner =>
      have hwritten : written.get? key = some (.compound inner) := by
        rcases Compound.getAs?_eq_some_iff.1 hinner with ⟨tag, htag, hread⟩
        cases tag with
        | compound fields =>
            cases hread
            exact hkeeps.2.trans htag
        | _ => cases hread
      have hsettled : ∀ placed, written.settled (placed.map
          (IdPlace.below ((fields.slot? key).getD 0))) =
          written.insert key (.compound (inner.settled placed)) := by
        intro placed
        rw [← hkeeps.1, ← Compound.settle_compound]
        exact Compound.settled_atSlot hwritten
      simp [insertNested, hsettled]

section

variable {fields written : Compound} {key : String} {tag : Tag}
  (htag : rewriteNested visitor "tag" fields.entries = do
    let placed ← askAll visitor (placesOfNested "tag" fields.entries)
    return (fields.getCompound? "tag").map fun inner => inner.settled placed)
  (hd : rewriteNested visitor "d" fields.entries = do
    let placed ← askAll visitor (placesOfNested "d" fields.entries)
    return (fields.getCompound? "d").map fun inner => inner.settled placed)

include htag hd

/-- Both compounds of an item record are rewritten in their places, also after other changes. -/
theorem bind_insertNested_both (hkeepsTag : Keeps fields written "tag")
    (hkeepsD : Keeps fields written "d") :
    (do
      let inner ← rewriteNested visitor "tag" fields.entries
      let d ← rewriteNested visitor "d" fields.entries
      return insertNested (insertNested written "tag" inner) "d" d) =
    (do
      let first ← askAll visitor (atSlot fields "tag" (placesOfNested "tag" fields.entries))
      let second ← askAll visitor (atSlot fields "d" (placesOfNested "d" fields.entries))
      return Compound.settled (Compound.settled written first) second) := by
  have hne : "tag" ≠ "d" := by decide
  let last : Compound → m Compound := fun written => do
    let placed ← askAll visitor (atSlot fields "d" (placesOfNested "d" fields.entries))
    return written.settled placed
  calc
    (do
      let inner ← rewriteNested visitor "tag" fields.entries
      let d ← rewriteNested visitor "d" fields.entries
      return insertNested (insertNested written "tag" inner) "d" d) =
        (do
          let inner ← rewriteNested visitor "tag" fields.entries
          last (insertNested written "tag" inner)) :=
      bind_congr fun inner => bind_insertNested visitor pure (hkeepsD.insertNested hne inner) hd
    _ = _ := bind_insertNested visitor last hkeepsTag htag

/-- An item record is rewritten in its number, in its `tag` and in its `d`, one after the other. -/
theorem rewriteItem_eq (hkey : itemKey? fields = some key) (hget : fields.get? key = some tag) :
    rewriteTree visitor fields = do
      let placed ← askAll visitor (placesOfTree fields)
      return fields.settled placed := by
  have hnames : key ≠ "tag" ∧ key ≠ "d" := by
    rcases eq_of_itemKey? hkey with rfl | rfl <;> decide
  -- The number stands beside the two compounds, so that they are still in their places after it.
  have hkeeps : ∀ name, Keeps fields fields name := fun name => ⟨rfl, rfl⟩
  have hnested := fun id : Tag => bind_insertNested_both visitor htag hd
    ((hkeeps "tag").insert hnames.1 id) ((hkeeps "d").insert hnames.2 id)
  rcases fields with ⟨entries⟩
  have hown : ∀ placed, OrderedMap.insert ⟨entries⟩ key (settle placed tag) =
      Compound.settled ⟨entries⟩ (atSlot ⟨entries⟩ key placed) :=
    fun placed => (Compound.settled_atSlot hget).symm
  simp only at hnested
  simp only [rewriteTree, placesOfTree, hkey, hget, Option.getD_some]
  simp only [visit_eq, bind_assoc, pure_bind, hnested, hown]
  simp only [askAll_append, bind_assoc, pure_bind, Compound.settled_append, atSlot, askAll_below,
    map_eq_pure_bind]

end

-- By the recursion of the traversal: what is asked for in a part of a tree is asked for in the order
-- of its places, and the answers are settled in that part.
mutual

theorem rewriteTree_eq : ∀ tree : Compound,
    rewriteTree visitor tree = do
      let placed ← askAll visitor (placesOfTree tree)
      return tree.settled placed
  | ⟨entries⟩ => by
      cases hkey : itemKey? ⟨entries⟩ with
      | some key =>
          rcases get?_isSome_of_itemKey? hkey with ⟨tag, hget⟩
          have htag := rewriteNested_eq_settled "tag" entries
          have hd := rewriteNested_eq_settled "d" entries
          exact rewriteItem_eq visitor htag hd hkey hget
      | none =>
          simp only [rewriteTree, placesOfTree, hkey, rewriteFields_eq _ entries, bind_assoc,
            pure_bind]

theorem rewriteNested_eq_settled (key : String) : ∀ entries : List (String × Tag),
    rewriteNested visitor key entries = do
      let placed ← askAll visitor (placesOfNested key entries)
      return (Compound.getCompound? ⟨entries⟩ key).map fun inner => inner.settled placed
  | [] => by simp [rewriteNested, placesOfNested, askAll]; rfl
  | (name, tag) :: rest => by
      have hrest := rewriteNested_eq_settled key rest
      unfold Compound.getCompound? Compound.getAs? at hrest ⊢
      rw [OrderedMap.get?_cons]
      by_cases hname : name = key
      · subst hname
        cases tag with
        | compound inner =>
            rw [rewriteNested_cons_compound, placesOfNested_cons_compound, rewriteTree_eq inner]
            simp [Tag.asCompound?]
        | _ =>
            rw [rewriteNested_cons_of_not_compound rfl, placesOfNested_cons_of_not_compound rfl]
            simp [askAll, Tag.asCompound?]
      · rw [rewriteNested_cons_of_ne hname, placesOfNested_cons_of_ne hname, if_neg hname]
        exact hrest

theorem rewriteFields_eq (isDoor : Bool) : ∀ entries : List (String × Tag),
    rewriteFields visitor isDoor entries = do
      let placed ← askAll visitor (placesOfFields isDoor entries)
      return (Compound.settled ⟨entries⟩ placed).entries
  | [] => by simp [rewriteFields, placesOfFields, askAll, Compound.settled]
  | (key, tag) :: rest => by
      simp only [rewriteFields, placesOfFields, rewriteValue_eq _ tag, rewriteFields_eq isDoor rest,
        askAll_append, askAll_below, askAll_next, map_eq_pure_bind, bind_assoc, pure_bind,
        Compound.settled_cons]

theorem rewriteValue_eq (held : Option IdKind) : ∀ tag : Tag,
    rewriteValue visitor held tag = do
      let placed ← askAll visitor (placesOfValue held tag)
      return settle placed tag
  | .int v => by
      cases held with
      | none => simp [rewriteValue, placesOfValue, askAll, settle]
      | some kind => exact visit_eq visitor kind (.int v)
  | .compound inner => by
      simp only [rewriteValue, placesOfValue, rewriteTree_eq inner, map_eq_pure_bind, bind_assoc,
        pure_bind, Compound.settle_compound]
  | .list ⟨element, items⟩ => by
      simp only [rewriteValue, placesOfValue, rewriteItems_eq items, bind_assoc, pure_bind,
        settle_list]
  | .terminator => by simp [rewriteValue, placesOfValue, askAll, settle]
  | .byte _ => by simp [rewriteValue, placesOfValue, askAll, settle]
  | .short _ => by simp [rewriteValue, placesOfValue, askAll, settle]
  | .long _ => by simp [rewriteValue, placesOfValue, askAll, settle]
  | .float _ => by simp [rewriteValue, placesOfValue, askAll, settle]
  | .double _ => by simp [rewriteValue, placesOfValue, askAll, settle]
  | .byteArray _ => by simp [rewriteValue, placesOfValue, askAll, settle]
  | .string _ => by simp [rewriteValue, placesOfValue, askAll, settle]
  | .intArray _ => by simp [rewriteValue, placesOfValue, askAll, settle]
  | .longArray _ => by simp [rewriteValue, placesOfValue, askAll, settle]

theorem rewriteItems_eq : ∀ items : List Tag,
    rewriteItems visitor items = do
      let placed ← askAll visitor (placesOfItems items)
      return settleRow placed items
  | [] => by simp [rewriteItems, placesOfItems, askAll, settleRow]
  | tag :: rest => by
      have hrest := rewriteItems_eq rest
      cases tag with
      | compound inner =>
          simp only [rewriteItems, placesOfItems, rewriteTree_eq inner, hrest, askAll_append,
            askAll_below, askAll_next, map_eq_pure_bind, bind_assoc, pure_bind, settleRow_cons,
            Compound.settle_compound]
      | _ =>
          simp only [rewriteItems, placesOfItems, hrest, askAll_next, map_eq_pure_bind, bind_assoc,
            pure_bind, settleRow_next]

end

end

end IdField

end VoxelSchematic
