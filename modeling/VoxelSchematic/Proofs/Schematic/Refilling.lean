import VoxelSchematic.Proofs.Schematic.Surveying

/-!
# Trees with other numbers in their places

* `Tag.blank` is a tree without the values of its numbers. The places depend on nothing else
  (`placesOfTree_blank`), so they are still found when the numbers have changed.
* `Compound.refilled` puts answers into the places of a tree. It behaves as a lens
  (`heldIds_refilled`, `refilled_heldIds`, `refilled_refilled`), and `Compound.rewriteIds_lawful`
  collects what this says of a traversal.
-/

namespace VoxelSchematic

open IdField

/-! ## Places do not depend on the values of numbers -/

namespace Tag

mutual

/-- A tree with zero in the place of every short and every int. -/
def blank : Tag → Tag
  | .short _ => .short 0
  | .int _ => .int 0
  | .list ⟨element, items⟩ => .list ⟨element, blankItems items⟩
  | .compound ⟨entries⟩ => .compound ⟨blankFields entries⟩
  | tag => tag

def blankItems : List Tag → List Tag
  | [] => []
  | tag :: rest => tag.blank :: blankItems rest

def blankFields : List (String × Tag) → List (String × Tag)
  | [] => []
  | (key, tag) :: rest => (key, tag.blank) :: blankFields rest

end

theorem blankItems_eq_map (items : List Tag) : blankItems items = items.map blank := by
  induction items with
  | nil => rfl
  | cons tag rest ih => simp [blankItems, ih]

theorem blankFields_eq_map (entries : List (String × Tag)) :
    blankFields entries = entries.map fun entry => (entry.1, entry.2.blank) := by
  induction entries with
  | nil => rfl
  | cons entry rest ih => simp [blankFields, ih]

theorem children_blank (tag : Tag) : tag.blank.children = tag.children.map blank := by
  cases tag with
  | list l => exact blankItems_eq_map l.items
  | compound fields =>
      rcases fields with ⟨entries⟩
      simp [blank, children, blankFields_eq_map]
  | _ => rfl

theorem blank_withChildren (tag : Tag) (values : List Tag) :
    (tag.withChildren values).blank = tag.blank.withChildren (values.map blank) := by
  cases tag with
  | list l => simp [withChildren, blank, blankItems_eq_map]
  | compound fields =>
      rcases fields with ⟨entries⟩
      simp [withChildren, blank, blankFields_eq_map, List.map_zipWith, List.zipWith_map]
  | _ => rfl

theorem blank_withIdNumber (tag : Tag) (id : UInt16) : (tag.withIdNumber id).blank = tag.blank := by
  cases tag <;> rfl

theorem blank_amendAt {f : Tag → Tag} (hf : ∀ tag, (f tag).blank = tag.blank) (tag : Tag)
    (path : List Nat) : (tag.amendAt f path).blank = tag.blank := by
  induction path generalizing tag with
  | nil => exact hf tag
  | cons i path ih =>
      have hrow : (tag.children.modify i fun child => child.amendAt f path).map blank =
          tag.children.map blank := by
        apply List.ext_getElem (by simp)
        intro j hj _
        simp only [List.getElem_map, List.getElem_modify]
        by_cases hij : i = j
        · simp [hij, ih]
        · simp [hij]
      calc
        (tag.amendAt f (i :: path)).blank =
            tag.blank.withChildren (tag.children.map blank) := by
              rw [amendAt, blank_withChildren, hrow]
        _ = tag.blank := by rw [← children_blank, withChildren_children]

end Tag

namespace IdField

theorem blank_settle (placed : List IdPlace) (tag : Tag) :
    (settle placed tag).blank = tag.blank := by
  induction placed generalizing tag with
  | nil => rfl
  | cons place rest ih =>
      exact (ih _).trans
        (Tag.blank_amendAt (fun tag => Tag.blank_withIdNumber tag place.id) tag place.path)

section

variable {entries : List (String × Tag)}

theorem get?_blankFields (key : String) :
    (⟨Tag.blankFields entries⟩ : Compound).get? key =
      ((⟨entries⟩ : Compound).get? key).map Tag.blank := by
  rw [Tag.blankFields_eq_map]
  exact OrderedMap.get?_mapValues (fun _ => Tag.blank) ⟨entries⟩ key

theorem slot?_blankFields (key : String) :
    (⟨Tag.blankFields entries⟩ : Compound).slot? key = (⟨entries⟩ : Compound).slot? key := by
  rw [OrderedMap.slot?_eq_findIdx?, OrderedMap.slot?_eq_findIdx?]
  simp [OrderedMap.keys, Tag.blankFields_eq_map, Function.comp_def]

theorem isNumeric_map_blank (field : Option Tag) :
    isNumeric (field.map Tag.blank) = isNumeric field := by
  cases field with
  | none => rfl
  | some tag => cases tag <;> rfl

/-- An item record is known by its names and types. -/
theorem itemKey?_blankFields : itemKey? ⟨Tag.blankFields entries⟩ = itemKey? ⟨entries⟩ := by
  have hcontains : ∀ key, (⟨Tag.blankFields entries⟩ : Compound).contains key =
      (⟨entries⟩ : Compound).contains key := by
    intro key
    rw [OrderedMap.contains, slot?_blankFields, OrderedMap.contains]
  have hint : (Compound.getInt? ⟨Tag.blankFields entries⟩ "id").isSome =
      (Compound.getInt? ⟨entries⟩ "id").isSome := by
    unfold Compound.getInt? Compound.getAs?
    rw [get?_blankFields]
    cases (⟨entries⟩ : Compound).get? "id" with
    | none => rfl
    | some tag => cases tag <;> rfl
  simp only [itemKey?, hcontains, hint, get?_blankFields, isNumeric_map_blank]

/-- A door is known by a text. -/
theorem isDoor_blankFields : isDoor ⟨Tag.blankFields entries⟩ = isDoor ⟨entries⟩ := by
  unfold isDoor Compound.getString? Compound.getAs?
  rw [get?_blankFields]
  cases (⟨entries⟩ : Compound).get? "id" with
  | none => rfl
  | some tag => cases tag <;> rfl

end

/-- The places of a tree without numbers. -/
def blankPlaces (places : List IdPlace) : List IdPlace := places.map fun place => place.answered 0

section

variable {places others : List IdPlace}

theorem blankPlaces_append :
    blankPlaces (places ++ others) = blankPlaces places ++ blankPlaces others :=
  List.map_append

theorem blankPlaces_below (i : Nat) :
    blankPlaces (places.map (IdPlace.below i)) = (blankPlaces places).map (IdPlace.below i) := by
  simp [blankPlaces, IdPlace.below, IdPlace.answered]

theorem blankPlaces_next :
    blankPlaces (places.map IdPlace.next) = (blankPlaces places).map IdPlace.next := by
  simp [blankPlaces, IdPlace.next, IdPlace.answered]

theorem length_eq_of_blankPlaces (h : blankPlaces places = blankPlaces others) :
    places.length = others.length := by
  simpa [blankPlaces] using congrArg List.length h

/-- A place is known by its number and by what is left without it. -/
theorem ext_of_blankPlaces (h : blankPlaces places = blankPlaces others)
    (hids : places.map IdPlace.id = others.map IdPlace.id) : places = others := by
  apply List.ext_getElem (length_eq_of_blankPlaces h)
  intro k hk hother
  have hanswered : places[k].answered 0 = others[k].answered 0 := by
    have hget := congrArg (fun places : List IdPlace => places[k]?) h
    simpa [blankPlaces, hk, hother] using hget
  have hid : places[k].id = others[k].id := by
    have hget := congrArg (fun ids : List UInt16 => ids[k]?) hids
    simpa [hk, hother] using hget
  calc
    places[k] = (places[k].answered 0).answered places[k].id := rfl
    _ = (others[k].answered 0).answered others[k].id := by rw [hanswered, hid]
    _ = others[k] := rfl

theorem placesOfNumber_blank (kind : IdKind) (tag : Tag) :
    placesOfNumber kind tag.blank = blankPlaces (placesOfNumber kind tag) := by
  cases tag <;> rfl

end

-- By the recursion of the places: each part of a blank tree has the places of that part without
-- their numbers, since what kind of part it is can be seen without numbers.
mutual

theorem placesOfTree_blank : ∀ tree : Compound,
    placesOfTree ⟨Tag.blankFields tree.entries⟩ = blankPlaces (placesOfTree tree)
  | ⟨entries⟩ => by
      cases hkey : itemKey? ⟨entries⟩ with
      | some key =>
          rcases get?_isSome_of_itemKey? hkey with ⟨tag, hget⟩
          simp only [placesOfTree, itemKey?_blankFields, hkey, get?_blankFields, hget,
            Option.map_some, Option.getD_some, atSlot, slot?_blankFields, blankPlaces_append,
            blankPlaces_below, placesOfNumber_blank, placesOfNested_blank _ entries]
      | none =>
          simp only [placesOfTree, itemKey?_blankFields, hkey, isDoor_blankFields,
            placesOfFields_blank _ entries]

theorem placesOfNested_blank (key : String) : ∀ entries : List (String × Tag),
    placesOfNested key (Tag.blankFields entries) = blankPlaces (placesOfNested key entries)
  | [] => rfl
  | (name, tag) :: rest => by
      by_cases hname : name = key
      · subst hname
        cases tag with
        | compound inner =>
            rw [Tag.blankFields, placesOfNested_cons_compound, ← placesOfTree_blank inner]
            exact placesOfNested_cons_compound
        | _ =>
            rw [Tag.blankFields, placesOfNested_cons_of_not_compound rfl,
              placesOfNested_cons_of_not_compound rfl]
            rfl
      · rw [Tag.blankFields, placesOfNested_cons_of_ne hname, placesOfNested_cons_of_ne hname]
        exact placesOfNested_blank key rest

theorem placesOfFields_blank (isDoor : Bool) : ∀ entries : List (String × Tag),
    placesOfFields isDoor (Tag.blankFields entries) = blankPlaces (placesOfFields isDoor entries)
  | [] => rfl
  | (key, tag) :: rest => by
      simp only [Tag.blankFields, placesOfFields, placesOfValue_blank _ tag,
        placesOfFields_blank isDoor rest, blankPlaces_append, blankPlaces_below, blankPlaces_next]

theorem placesOfValue_blank (held : Option IdKind) : ∀ tag : Tag,
    placesOfValue held tag.blank = blankPlaces (placesOfValue held tag)
  | .int v => by
      cases held with
      | none => rfl
      | some kind => exact placesOfNumber_blank kind (.int v)
  | .compound ⟨entries⟩ => placesOfTree_blank ⟨entries⟩
  | .list ⟨_, items⟩ => placesOfItems_blank items
  | .terminator => rfl
  | .byte _ => rfl
  | .short _ => rfl
  | .long _ => rfl
  | .float _ => rfl
  | .double _ => rfl
  | .byteArray _ => rfl
  | .string _ => rfl
  | .intArray _ => rfl
  | .longArray _ => rfl

theorem placesOfItems_blank : ∀ items : List Tag,
    placesOfItems (Tag.blankItems items) = blankPlaces (placesOfItems items)
  | [] => rfl
  | tag :: rest => by
      have hrest := placesOfItems_blank rest
      cases tag with
      | compound inner =>
          have hinner := placesOfTree_blank inner
          simp only [Tag.blankItems, Tag.blank, placesOfItems, hinner, hrest, blankPlaces_append,
            blankPlaces_below, blankPlaces_next]
      | _ => simp only [Tag.blankItems, Tag.blank, placesOfItems, hrest, blankPlaces_next]

end

end IdField

namespace IdField

/-! ## Laws of settling -/

section

variable {places placed others : List IdPlace} {tag : Tag} {path : List Nat}

theorem map_path_blankPlaces : (blankPlaces places).map IdPlace.path = places.map IdPlace.path := by
  simp [blankPlaces, IdPlace.answered]

theorem map_path_eq_of_blankPlaces (h : blankPlaces placed = blankPlaces places) :
    placed.map IdPlace.path = places.map IdPlace.path := by
  rw [← map_path_blankPlaces, h, map_path_blankPlaces]

theorem Surveyed.exists_number {place : IdPlace} (h : Surveyed places tag) (hplace : place ∈ places) :
    ∃ number, tag.face? place.path = some number ∧ number.idNumber? = some place.id :=
  Option.bind_eq_some_iff.1 (h.numbers place hplace)

/-- A number is settled once, in the place where one was. -/
theorem Surveyed.face?_settle {place new : IdPlace} {k : Nat} (h : Surveyed places tag)
    (hpaths : placed.map IdPlace.path = places.map IdPlace.path) (hplace : places[k]? = some place)
    (hnew : placed[k]? = some new) :
    ∃ number, tag.face? place.path = some number ∧ number.idNumber? = some place.id ∧
      (settle placed tag).face? place.path = some (number.withIdNumber new.id) := by
  have hpath : new.path = place.path := by
    have hk := congrArg (fun paths : List (List Nat) => paths[k]?) hpaths
    simpa [hplace, hnew] using hk
  have hnodup : (placed.map IdPlace.path).Nodup := hpaths ▸ h.apart
  rcases h.exists_number (List.mem_of_getElem? hplace) with ⟨number, hface, hnumber⟩
  refine ⟨number, hface, hnumber, ?_⟩
  rw [← hpath, face?_settle_of_mem hnodup (List.mem_of_getElem? hnew), hpath, hface]
  rfl

/-- Numbers that are where they were change nothing. -/
theorem Surveyed.settle_eq_self (h : Surveyed places tag) : settle places tag = tag := by
  apply Tag.ext_face
  intro path
  by_cases hpath : path ∈ places.map IdPlace.path
  · rcases List.mem_map.1 hpath with ⟨place, hplace, rfl⟩
    rcases h.exists_number hplace with ⟨number, hface, hnumber⟩
    rw [face?_settle_of_mem h.apart hplace, hface, Option.map_some, Tag.withIdNumber_self hnumber]
  · exact face?_settle_of_not_mem hpath

/-- Only the last numbers in the same places count. -/
theorem settle_settle (hnodup : (others.map IdPlace.path).Nodup)
    (hpaths : placed.map IdPlace.path = others.map IdPlace.path) :
    settle others (settle placed tag) = settle others tag := by
  apply Tag.ext_face
  intro path
  by_cases hpath : path ∈ others.map IdPlace.path
  · have hplaced : path ∈ placed.map IdPlace.path := hpaths ▸ hpath
    rcases List.mem_map.1 hpath with ⟨last, hlast, rfl⟩
    rcases List.mem_map.1 hplaced with ⟨first, hfirst, hsame⟩
    have hface : (settle placed tag).face? first.path =
        (tag.face? first.path).map (Tag.withIdNumber first.id) :=
      face?_settle_of_mem (hpaths ▸ hnodup) hfirst
    rw [hsame] at hface
    rw [face?_settle_of_mem hnodup hlast, face?_settle_of_mem hnodup hlast, hface, Option.map_map]
    exact congrArg (fun f => Option.map f (tag.face? last.path))
      (funext Tag.withIdNumber_withIdNumber)
  · have hplaced : path ∉ placed.map IdPlace.path := hpaths ▸ hpath
    rw [face?_settle_of_not_mem hpath, face?_settle_of_not_mem hpath, face?_settle_of_not_mem hplaced]

end

theorem blankPlaces_settled (placed : List IdPlace) (tree : Compound) :
    blankPlaces (placesOfTree (tree.settled placed)) = blankPlaces (placesOfTree tree) := by
  have hfields : Tag.blankFields (tree.settled placed).entries = Tag.blankFields tree.entries := by
    have hsame := blank_settle placed (.compound tree)
    rw [Compound.settle_compound] at hsame
    exact congrArg OrderedMap.entries (Tag.compound.inj hsame)
  rw [← placesOfTree_blank, hfields, placesOfTree_blank]

/-- In a tree with other numbers the same places are found. -/
theorem placesOfTree_settled {tree : Compound} {placed : List IdPlace}
    (h : blankPlaces placed = blankPlaces (placesOfTree tree)) :
    placesOfTree (tree.settled placed) = placed := by
  have hblank : blankPlaces (placesOfTree (tree.settled placed)) = blankPlaces placed :=
    (blankPlaces_settled placed tree).trans h.symm
  apply ext_of_blankPlaces hblank
  apply List.ext_getElem (by simpa using length_eq_of_blankPlaces hblank)
  intro k hk hplaced
  simp only [List.length_map] at hk hplaced
  simp only [List.getElem_map]
  have hplace : k < (placesOfTree tree).length := length_eq_of_blankPlaces h ▸ hplaced
  have hpath : (placesOfTree (tree.settled placed))[k].path = (placesOfTree tree)[k].path := by
    have hget := congrArg (fun paths : List (List Nat) => paths[k]?)
      (map_path_eq_of_blankPlaces (blankPlaces_settled placed tree))
    simpa [hk, hplace] using hget
  -- What is found in the place is what was settled there.
  rcases (surveyed_tree tree).face?_settle (map_path_eq_of_blankPlaces h)
    (List.getElem?_eq_getElem hplace) (List.getElem?_eq_getElem hplaced) with
    ⟨number, -, hnumber, hface⟩
  rcases (surveyed_tree (tree.settled placed)).exists_number (List.getElem_mem hk) with
    ⟨found, hfound, hfoundNumber⟩
  rw [Compound.settle_compound, ← hpath, hfound] at hface
  have hnew : found.idNumber? = some placed[k].id := by
    rw [Option.some.inj hface]
    exact Tag.idNumber?_withIdNumber (Option.isSome_of_eq_some hnumber)
  exact Option.some.inj (hfoundNumber.symm.trans hnew)

/-! ## The numbers that a visitor is shown -/

theorem asks_askAll (places : List IdPlace) :
    Asks (places.map fun place => (place.kind, place.id))
      (fun _ _ visitor => askAll visitor places) := by
  induction places with
  | nil => exact (asks_pure []).congr fun m _ _ visitor => by simp [askAll]
  | cons place rest ih =>
      have hfirst := asks_visitor place.kind place.id
      refine (hfirst.bind fun answer => ih.map fun placed => place.answered answer :: placed).congr ?_
      intro m _ _ visitor
      simp [askAll, IdPlace.ask]

/-- What is settled are the answers, each in the place of its question. -/
theorem askAll_eq {m : Type → Type} [Monad m] [LawfulMonad m]
    (visitor : IdKind → UInt16 → m UInt16) (places : List IdPlace) :
    askAll visitor places = do
      let answers ← (places.map fun place => (place.kind, place.id)).mapM fun held =>
        visitor held.1 held.2
      return List.zipWith IdPlace.answered places answers := by
  induction places with
  | nil => simp [askAll]
  | cons place rest ih =>
      unfold askAll at ih ⊢
      simp [IdPlace.ask, ih]

theorem blankPlaces_zipWith {places : List IdPlace} {answers : List UInt16}
    (h : answers.length = places.length) :
    blankPlaces (List.zipWith IdPlace.answered places answers) = blankPlaces places := by
  apply List.ext_getElem
  · simp [blankPlaces, h]
  · intro k hk _
    simp [blankPlaces, IdPlace.answered]

end IdField

namespace Compound

/-! ## Answers in the places of a tree -/

/-- The places of the numbers in a tree, in the order in which a traversal comes to them. -/
def idPlaces (tree : Compound) : List IdPlace := placesOfTree tree

/-- A tree with answers in the places of its numbers. -/
def refilled (tree : Compound) (answers : List UInt16) : Compound :=
  tree.settled (List.zipWith IdPlace.answered tree.idPlaces answers)

variable {tree : Compound} {answers others : List UInt16}

theorem heldIds_eq (tree : Compound) :
    tree.heldIds = tree.idPlaces.map fun place => (place.kind, place.id) := by
  refine (((asks_askAll tree.idPlaces).map tree.settled).congr fun m _ _ visitor => ?_).asked_eq
  exact rewriteTree_eq visitor tree

theorem length_heldIds (tree : Compound) : tree.heldIds.length = tree.idPlaces.length := by
  rw [heldIds_eq, List.length_map]

theorem map_path_zipWith_answered (h : answers.length = tree.heldIds.length) :
    (List.zipWith IdPlace.answered tree.idPlaces answers).map IdPlace.path =
      tree.idPlaces.map IdPlace.path :=
  map_path_eq_of_blankPlaces (blankPlaces_zipWith (h.trans (length_heldIds tree)))

/-- A traversal asks about one number after the other and puts the answers into their places. -/
theorem rewriteIds_eq {m : Type → Type} [Monad m] [LawfulMonad m]
    (visitor : IdKind → UInt16 → m UInt16) (tree : Compound) :
    tree.rewriteIds visitor = do
      let answers ← tree.heldIds.mapM fun held => visitor held.1 held.2
      return tree.refilled answers := by
  have hrun : tree.rewriteIds visitor = do
      let placed ← askAll visitor tree.idPlaces
      return tree.settled placed := rewriteTree_eq visitor tree
  rw [hrun, askAll_eq, heldIds_eq, bind_assoc]
  simp only [pure_bind, refilled]

theorem translateIds_eq (f : IdKind → UInt16 → UInt16) (tree : Compound) :
    tree.translateIds f = tree.refilled (tree.heldIds.map fun held => f held.1 held.2) := by
  rw [translateIds, rewriteIds_eq, List.mapM_pure]
  rfl

theorem idPlaces_refilled (h : answers.length = tree.heldIds.length) :
    (tree.refilled answers).idPlaces = List.zipWith IdPlace.answered tree.idPlaces answers :=
  placesOfTree_settled (blankPlaces_zipWith (h.trans (length_heldIds tree)))

/-- The answers are found where they were put. -/
theorem heldIds_refilled (h : answers.length = tree.heldIds.length) :
    (tree.refilled answers).heldIds = (tree.heldIds.map Prod.fst).zip answers := by
  rw [heldIds_eq, idPlaces_refilled h, heldIds_eq]
  simp [List.map_zipWith, List.zip, List.zipWith_map_left, IdPlace.answered]

/-- Numbers put back leave the tree as it is. -/
theorem refilled_heldIds (tree : Compound) :
    tree.refilled (tree.heldIds.map Prod.snd) = tree := by
  have hplaces : List.zipWith IdPlace.answered tree.idPlaces (tree.heldIds.map Prod.snd) =
      tree.idPlaces := by
    rw [heldIds_eq, List.map_map]
    apply List.ext_getElem (by simp)
    intro k hk _
    simp [IdPlace.answered]
  apply Tag.compound.inj
  rw [refilled, hplaces, ← settle_compound]
  exact (surveyed_tree tree).settle_eq_self

/-- Of two answers in one place the later one counts. -/
theorem refilled_refilled (h : answers.length = tree.heldIds.length)
    (hothers : others.length = tree.heldIds.length) :
    (tree.refilled answers).refilled others = tree.refilled others := by
  have hlength := length_heldIds tree
  have hagain : List.zipWith IdPlace.answered (tree.refilled answers).idPlaces others =
      List.zipWith IdPlace.answered tree.idPlaces others := by
    rw [idPlaces_refilled h]
    apply List.ext_getElem
    · simp [h, hlength]
    · intro k hk _
      simp [IdPlace.answered]
  apply Tag.compound.inj
  rw [refilled, hagain, ← settle_compound, refilled, refilled, ← settle_compound, ← settle_compound]
  apply settle_settle
  · rw [map_path_zipWith_answered hothers]
    exact (surveyed_tree tree).apart
  · rw [map_path_zipWith_answered h, map_path_zipWith_answered hothers]

/-- Two translations, one after the other, are one. -/
theorem translateIds_translateIds (f g : IdKind → UInt16 → UInt16) (tree : Compound) :
    (tree.translateIds f).translateIds g = tree.translateIds fun kind id => g kind (f kind id) := by
  have hheld : (tree.translateIds f).heldIds =
      tree.heldIds.map fun held => (held.1, f held.1 held.2) := by
    rw [translateIds_eq, heldIds_refilled (List.length_map ..)]
    apply List.ext_getElem (by simp)
    intro k hk _
    simp
  rw [translateIds_eq g, hheld, translateIds_eq f, List.map_map,
    refilled_refilled (List.length_map ..) (List.length_map ..), translateIds_eq]
  rfl

end Compound

/-! ## The laws of a traversal -/

/-- A number with another in its place: an int has it in its low half and keeps its high half. -/
inductive Tag.Renumbered (id answer : UInt16) : Tag → Tag → Prop
  | short {v w : Int16} :
      v.toUInt16 = id → w.toUInt16 = answer → Renumbered id answer (.short v) (.short w)
  | int {v w : Int32} :
      lowBits v = id → lowBits w = answer → highBits w = highBits v →
        Renumbered id answer (.int v) (.int w)

theorem Tag.renumbered_withIdNumber {tag : Tag} {id : UInt16} (h : tag.idNumber? = some id)
    (answer : UInt16) : tag.Renumbered id answer (tag.withIdNumber answer) := by
  cases tag with
  | short v => exact .short (Option.some.inj h) (by simp)
  | int v =>
      exact .int (Option.some.inj h) (lowBits_withLowBits v answer) (highBits_withLowBits v answer)
  | _ => cases h

namespace Compound

/-- The result has the answers in the places of the tree, and is the tree everywhere else. -/
structure Rewritten (tree : Compound) (answers : List UInt16) (result : Compound) : Prop where
  numbers : ∀ (k : Nat) (place : IdPlace) (answer : UInt16),
    tree.idPlaces[k]? = some place → answers[k]? = some answer →
      ∃ old new, (Tag.compound tree).face? place.path = some old ∧
        (Tag.compound result).face? place.path = some new ∧ old.Renumbered place.id answer new
  others : ∀ path, path ∉ tree.idPlaces.map IdPlace.path →
    (Tag.compound result).face? path = (Tag.compound tree).face? path
  kinds : ∀ path, ((Tag.compound result).face? path).map Tag.kind =
    ((Tag.compound tree).face? path).map Tag.kind
  keys : ∀ path, (((Tag.compound result).face? path).bind Tag.asCompound?).map OrderedMap.keys =
    (((Tag.compound tree).face? path).bind Tag.asCompound?).map OrderedMap.keys
  heldIds : result.heldIds = (tree.heldIds.map Prod.fst).zip answers

section

variable {tree : Compound} {answers : List UInt16} (h : answers.length = tree.heldIds.length)

include h

theorem face?_refilled_of_not_mem {path : List Nat} (hpath : path ∉ tree.idPlaces.map IdPlace.path) :
    (Tag.compound (tree.refilled answers)).face? path = (Tag.compound tree).face? path := by
  rw [refilled, ← settle_compound]
  exact face?_settle_of_not_mem (map_path_zipWith_answered h ▸ hpath)

/-- In the place of a number stands the answer to it. -/
theorem renumbered_refilled {k : Nat} {place : IdPlace} {answer : UInt16}
    (hplace : tree.idPlaces[k]? = some place) (hanswer : answers[k]? = some answer) :
    ∃ old new, (Tag.compound tree).face? place.path = some old ∧
      (Tag.compound (tree.refilled answers)).face? place.path = some new ∧
        old.Renumbered place.id answer new := by
  have hplaced : (List.zipWith IdPlace.answered tree.idPlaces answers)[k]? =
      some (place.answered answer) := by
    simp [List.getElem?_zipWith, hplace, hanswer]
  rcases (surveyed_tree tree).face?_settle (map_path_zipWith_answered h) hplace hplaced with
    ⟨old, hold, hnumber, hnew⟩
  rw [settle_compound] at hnew
  exact ⟨old, _, hold, hnew, Tag.renumbered_withIdNumber hnumber answer⟩

/-- A path leads to the same as before, or to a number with another in its place. -/
theorem face?_refilled_cases (path : List Nat) :
    (Tag.compound (tree.refilled answers)).face? path = (Tag.compound tree).face? path ∨
      ∃ id answer old new, (Tag.compound tree).face? path = some old ∧
        (Tag.compound (tree.refilled answers)).face? path = some new ∧
          Tag.Renumbered id answer old new := by
  by_cases hpath : path ∈ tree.idPlaces.map IdPlace.path
  · rcases List.mem_map.1 hpath with ⟨place, hplace, rfl⟩
    rcases List.getElem?_of_mem hplace with ⟨k, hk⟩
    have hbound : k < answers.length := by
      rw [h, length_heldIds]
      exact (List.getElem?_eq_some_iff.1 hk).1
    exact .inr ⟨_, _, renumbered_refilled h hk (List.getElem?_eq_getElem hbound)⟩
  · exact .inl (face?_refilled_of_not_mem h hpath)

theorem rewritten_refilled : tree.Rewritten answers (tree.refilled answers) where
  numbers := fun _ _ _ hplace hanswer => renumbered_refilled h hplace hanswer
  others := fun _ hpath => face?_refilled_of_not_mem h hpath
  kinds := by
    intro path
    rcases face?_refilled_cases h path with hsame | ⟨id, answer, old, new, hold, hnew, hrenumbered⟩
    · rw [hsame]
    · rw [hold, hnew]
      cases hrenumbered <;> rfl
  keys := by
    intro path
    rcases face?_refilled_cases h path with hsame | ⟨id, answer, old, new, hold, hnew, hrenumbered⟩
    · rw [hsame]
    · rw [hold, hnew]
      cases hrenumbered <;> rfl
  heldIds := heldIds_refilled h

end

/-- A traversal is lawful. What it asks is known from the tree alone, each number is asked about
once, and the answers are all that changes. So numbers that stay leave the tree as it is, two
translations are one, and what is collected are the numbers that a conversion translates. -/
theorem rewriteIds_lawful (tree : Compound) :
    (tree.heldIds = tree.idPlaces.map fun place => (place.kind, place.id)) ∧
    (tree.idPlaces.map IdPlace.path).Nodup ∧
    (∀ (m : Type → Type) [Monad m] [LawfulMonad m] (visitor : IdKind → UInt16 → m UInt16),
      tree.rewriteIds visitor = do
        let answers ← tree.heldIds.mapM fun held => visitor held.1 held.2
        return tree.refilled answers) ∧
    (∀ answers, answers.length = tree.heldIds.length →
      tree.Rewritten answers (tree.refilled answers)) ∧
    (∀ (m : Type → Type) [Monad m] [LawfulMonad m],
      tree.rewriteIds (fun _ id => (pure id : m UInt16)) = pure tree) ∧
    (∀ f g, (tree.translateIds f).translateIds g =
      tree.translateIds fun kind id => g kind (f kind id)) ∧
    (∀ c, tree.convertIds c = tree.refilled (tree.heldIds.map fun held => c.translate held.1 held.2)) ∧
    ∀ {ε : Type} registry table, (tree.recordIds registry table : Telling ε RemapTable) =
      tree.heldIds.foldlM (fun table held => recordName registry held.1 held.2 table) table := by
  refine ⟨heldIds_eq tree, (surveyed_tree tree).apart, fun m _ _ visitor => rewriteIds_eq visitor tree,
    fun answers h => rewritten_refilled h, fun m _ _ => ?_,
    fun f g => translateIds_translateIds f g tree, fun c => translateIds_eq c.translate tree,
    fun registry table => recordIds_eq_foldlM registry tree table⟩
  rw [rewriteIds_eq, List.mapM_pure, pure_bind, refilled_heldIds]

/-- A door with a frame, a block and an item that has a number inside. -/
def stockedDoor : Compound :=
  ⟨[("id", Tag.string doorId), ("frame", Tag.int 0x00050003), ("block", Tag.int 7),
    ("Items", Tag.list ⟨.compound, [Tag.compound ⟨[("id", Tag.short 5), ("Count", Tag.byte 1),
      ("Damage", Tag.short 0), ("tag", Tag.compound ⟨[("id", Tag.int (-1))]⟩)]⟩]⟩)]⟩

/-- Answers with a number of its own for each question. -/
def number (_ : IdKind) (_ : UInt16) : StateM UInt16 UInt16 := fun next => (next, next + 1)

/-- The door with the answers 100 to 103. -/
def renumberedDoor : Compound :=
  ⟨[("id", Tag.string doorId), ("frame", Tag.int 0x00050064), ("block", Tag.int 101),
    ("Items", Tag.list ⟨.compound, [Tag.compound ⟨[("id", Tag.short 102), ("Count", Tag.byte 1),
      ("Damage", Tag.short 0), ("tag", Tag.compound ⟨[("id", Tag.int (-65433))]⟩)]⟩]⟩)]⟩

theorem rewriteIds_lawful_stockedDoor :
    (stockedDoor.rewriteIds number).run 100 = (renumberedDoor, 104) ∧
      stockedDoor.Rewritten [100, 101, 102, 103] renumberedDoor := by
  rcases rewriteIds_lawful stockedDoor with ⟨hheld, -, hrun, hrewritten, -⟩
  have hids : stockedDoor.heldIds = [(.item, 3), (.block, 7), (.item, 5), (.item, 0xFFFF)] := by
    rw [hheld]
    decide +kernel
  have hrefilled : stockedDoor.refilled [100, 101, 102, 103] = renumberedDoor := rfl
  rw [← hrefilled]
  constructor
  · rw [hrun (StateM UInt16) number, hids]
    rfl
  · apply hrewritten
    rw [hids]
    rfl

end Compound

end VoxelSchematic
