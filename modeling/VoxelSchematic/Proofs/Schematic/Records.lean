import VoxelSchematic.Proofs.Schematic.Traversal
import VoxelSchematic.Schematic.Decoded
import VoxelSchematic.Schematic.Encoded

/-!
# Records of tile entities

A tile entity travels as its tree with four more fields. `anchor_tileEntityRecord` says what is
left of the tree when these are taken off again, and `heldIds_tileEntityRecord` that they hold no
numbers that depend on the registry.
-/

namespace VoxelSchematic

open IdField Decoded

namespace Compound

/-- The name of a tile entity, empty where the tree has none. -/
def nameText (tree : Compound) : String := (tree.getString? "id").getD ""

/-- A tree without its coordinates, and without a name that is no text or an empty one. -/
def bare (tree : Compound) : Compound :=
  let own : Compound := ((tree.erase "x").erase "y").erase "z"
  if tree.nameText = "" then own.erase "id" else own

end Compound

section

variable {place : BlockPos} {tree : Compound} {key : String}

theorem tileEntityRecord_eq (place : BlockPos) (tree : Compound) :
    tileEntityRecord place tree =
      (((tree.insert "id" (.string (Compound.nameText tree))).insert "x" (.int place.x)).insert "y"
        (.int place.y)).insert "z" (.int place.z) := rfl

theorem getString?_eq_some_of_nameText (h : Compound.nameText tree ≠ "") :
    tree.get? "id" = some (.string (Compound.nameText tree)) := by
  unfold Compound.nameText Compound.getString? Compound.getAs? at h ⊢
  cases hid : tree.get? "id" with
  | none => simp [hid] at h
  | some tag =>
      cases tag with
      | string s => rfl
      | _ => simp [hid, Tag.asString?] at h

theorem get?_tileEntityRecord_of_ne (hid : key ≠ "id") (hx : key ≠ "x") (hy : key ≠ "y")
    (hz : key ≠ "z") : (tileEntityRecord place tree).get? key = tree.get? key := by
  rw [tileEntityRecord_eq, OrderedMap.get?_insert, OrderedMap.get?_insert, OrderedMap.get?_insert,
    OrderedMap.get?_insert, if_neg hz.symm, if_neg hy.symm, if_neg hx.symm, if_neg hid.symm]

theorem get?_tileEntityRecord (place : BlockPos) (tree : Compound) :
    (tileEntityRecord place tree).get? "id" = some (.string (Compound.nameText tree)) ∧
      (tileEntityRecord place tree).get? "x" = some (.int place.x) ∧
      (tileEntityRecord place tree).get? "y" = some (.int place.y) ∧
      (tileEntityRecord place tree).get? "z" = some (.int place.z) := by
  simp [tileEntityRecord_eq, OrderedMap.get?_insert]

/-- Without its coordinates, a record is the tree under a name. -/
theorem erase_tileEntityRecord (place : BlockPos) (tree : Compound) :
    (((tileEntityRecord place tree).erase "x").erase "y").erase "z" =
      (((tree.erase "x").erase "y").erase "z").insert "id" (.string (Compound.nameText tree)) := by
  have hidx : ("id" : String) ≠ "x" := by decide
  have hidy : ("id" : String) ≠ "y" := by decide
  have hidz : ("id" : String) ≠ "z" := by decide
  have hyx : ("y" : String) ≠ "x" := by decide
  have hzx : ("z" : String) ≠ "x" := by decide
  have hzy : ("z" : String) ≠ "y" := by decide
  -- Each coordinate moves past the insertions behind it until it meets its own.
  rw [tileEntityRecord_eq, OrderedMap.erase_insert_of_ne hzx, OrderedMap.erase_insert_of_ne hyx,
    OrderedMap.erase_insert_self, OrderedMap.erase_insert_of_ne hidx,
    OrderedMap.erase_insert_of_ne hzy, OrderedMap.erase_insert_self, OrderedMap.erase_insert_self,
    OrderedMap.erase_insert_of_ne hidy, OrderedMap.erase_insert_of_ne hidz]

/-- Reading a record gives the way to the cell and the bare tree. -/
theorem anchor_tileEntityRecord (place : BlockPos) (tree : Compound) :
    anchor (tileEntityRecord place tree) = (place, Compound.bare tree) := by
  rcases get?_tileEntityRecord place tree with ⟨-, hx, hy, hz⟩
  have hplace : (⟨coordinate (tileEntityRecord place tree) "x",
      coordinate (tileEntityRecord place tree) "y",
      coordinate (tileEntityRecord place tree) "z"⟩ : BlockPos) = place := by
    simp [coordinate, Compound.getInt?, Compound.getAs?, hx, hy, hz, Tag.asInt?]
  have hname : ∀ own : Compound, Compound.getString?
      (own.insert "id" (.string (Compound.nameText tree))) "id" = some (Compound.nameText tree) := by
    intro own
    simp [Compound.getString?, Compound.getAs?, OrderedMap.get?_insert, Tag.asString?]
  rw [anchor, hplace, erase_tileEntityRecord, hname]
  refine congrArg (Prod.mk place) ?_
  -- An empty name goes; any other was the text under `id` already, and stays in its place.
  by_cases hempty : Compound.nameText tree = ""
  · rw [if_pos (by simp [hempty]), OrderedMap.erase_insert_self, Compound.bare, if_pos hempty]
  · have hget : (((tree.erase "x").erase "y").erase "z").get? "id" =
        some (.string (Compound.nameText tree)) := by
      rw [OrderedMap.get?_erase_of_ne (by decide), OrderedMap.get?_erase_of_ne (by decide),
        OrderedMap.get?_erase_of_ne (by decide)]
      exact getString?_eq_some_of_nameText hempty
    rw [if_neg (by simpa using hempty), OrderedMap.insert_of_get? hget, Compound.bare,
      if_neg hempty]

/-! ## The numbers in a record -/

/-- Whether a key is none of those that a record adds. -/
def isOwnKey (key : String) : Bool := key ≠ "id" && key ≠ "x" && key ≠ "y" && key ≠ "z"

theorem isOwnKey_iff : isOwnKey key = true ↔ key ≠ "id" ∧ key ≠ "x" ∧ key ≠ "y" ∧ key ≠ "z" := by
  simp [isOwnKey, and_assoc]

theorem added_of_not_isOwnKey (h : isOwnKey key = false) :
    key = "id" ∨ key = "x" ∨ key = "y" ∨ key = "z" := by
  by_contra hnone
  push Not at hnone
  exact absurd (isOwnKey_iff.2 hnone) (by simpa using h)

theorem filter_tileEntityRecord (place : BlockPos) (tree : Compound) :
    (tileEntityRecord place tree).entries.filter (fun entry => isOwnKey entry.1) =
      tree.entries.filter fun entry => isOwnKey entry.1 := by
  rw [tileEntityRecord_eq, OrderedMap.filter_insert (by decide), OrderedMap.filter_insert (by decide),
    OrderedMap.filter_insert (by decide), OrderedMap.filter_insert (by decide)]

theorem filter_bare (tree : Compound) :
    (Compound.bare tree).entries.filter (fun entry => isOwnKey entry.1) =
      tree.entries.filter fun entry => isOwnKey entry.1 := by
  have hown : (((tree.erase "x").erase "y").erase "z").entries.filter (fun entry => isOwnKey entry.1) =
      tree.entries.filter fun entry => isOwnKey entry.1 := by
    rw [OrderedMap.filter_erase (by decide), OrderedMap.filter_erase (by decide),
      OrderedMap.filter_erase (by decide)]
  rw [Compound.bare]
  by_cases hempty : Compound.nameText tree = ""
  · rw [if_pos hempty, OrderedMap.filter_erase (by decide), hown]
  · rw [if_neg hempty, hown]

theorem get?_bare_of_isOwnKey (h : isOwnKey key = true) :
    (Compound.bare tree).get? key = tree.get? key := by
  rcases isOwnKey_iff.1 h with ⟨hid, hx, hy, hz⟩
  have hown : (((tree.erase "x").erase "y").erase "z").get? key = tree.get? key := by
    rw [OrderedMap.get?_erase_of_ne hz.symm, OrderedMap.get?_erase_of_ne hy.symm,
      OrderedMap.get?_erase_of_ne hx.symm]
  rw [Compound.bare]
  by_cases hempty : Compound.nameText tree = ""
  · rw [if_pos hempty, OrderedMap.get?_erase_of_ne hid.symm, hown]
  · rw [if_neg hempty, hown]

/-! ## Item records and doors -/

/-- A text is no number, so the name of a tile entity makes no item record of it. -/
theorem itemKey?_of_not_numeric (h : isNumeric (tree.get? "id") = false) :
    itemKey? tree =
      if isNumeric (tree.get? "Item") && tree.contains "Count" && tree.contains "Meta" then some "Item"
      else none := by
  have hint : (Compound.getInt? tree "id").isSome = false := by
    unfold Compound.getInt? Compound.getAs?
    cases hid : tree.get? "id" with
    | none => rfl
    | some tag =>
        cases tag with
        | int v => simp [hid, isNumeric] at h
        | _ => rfl
  unfold itemKey?
  simp [h, hint]

/-- A name, where it stands, is a text. -/
theorem get?_bare_id (h : tree.Distinct) :
    (Compound.bare tree).get? "id" =
      if Compound.nameText tree = "" then none else some (.string (Compound.nameText tree)) := by
  have hdistinct : (((tree.erase "x").erase "y").erase "z").Distinct :=
    ((h.erase "x").erase "y").erase "z"
  rw [Compound.bare]
  by_cases hempty : Compound.nameText tree = ""
  · rw [if_pos hempty, if_pos hempty]
    exact OrderedMap.get?_erase_self hdistinct
  · rw [if_neg hempty, if_neg hempty, OrderedMap.get?_erase_of_ne (by decide),
      OrderedMap.get?_erase_of_ne (by decide), OrderedMap.get?_erase_of_ne (by decide)]
    exact getString?_eq_some_of_nameText hempty

theorem distinct_tileEntityRecord (h : tree.Distinct) : (tileEntityRecord place tree).Distinct :=
  h.insertMany _

theorem distinct_bare (h : tree.Distinct) : (Compound.bare tree).Distinct := by
  rw [Compound.bare]
  by_cases hempty : Compound.nameText tree = ""
  · rw [if_pos hempty]
    exact (((h.erase "x").erase "y").erase "z").erase "id"
  · rw [if_neg hempty]
    exact ((h.erase "x").erase "y").erase "z"

theorem get?_erase_coordinates (h : tree.Distinct) :
    (((tree.erase "x").erase "y").erase "z").get? "x" = none ∧
      (((tree.erase "x").erase "y").erase "z").get? "y" = none ∧
      (((tree.erase "x").erase "y").erase "z").get? "z" = none := by
  refine ⟨?_, ?_, OrderedMap.get?_erase_self ((h.erase "x").erase "y")⟩
  · rw [OrderedMap.get?_erase_of_ne (by decide), OrderedMap.get?_erase_of_ne (by decide)]
    exact OrderedMap.get?_erase_self h
  · rw [OrderedMap.get?_erase_of_ne (by decide)]
    exact OrderedMap.get?_erase_self (h.erase "x")

/-- Taking the name away brings no coordinate back. -/
theorem get?_erase_id_coordinates
    (h : tree.get? "x" = none ∧ tree.get? "y" = none ∧ tree.get? "z" = none) :
    (tree.erase "id").get? "x" = none ∧ (tree.erase "id").get? "y" = none ∧
      (tree.erase "id").get? "z" = none := by
  have hkeep : ∀ key : String, "id" ≠ key → (tree.erase "id").get? key = tree.get? key :=
    fun key hne => OrderedMap.get?_erase_of_ne hne
  rw [hkeep "x" (by decide), hkeep "y" (by decide), hkeep "z" (by decide)]
  exact h

theorem get?_bare_coordinates (h : tree.Distinct) :
    (Compound.bare tree).get? "x" = none ∧ (Compound.bare tree).get? "y" = none ∧
      (Compound.bare tree).get? "z" = none := by
  have hown := get?_erase_coordinates h
  rw [Compound.bare]
  by_cases hempty : Compound.nameText tree = ""
  · rw [if_pos hempty]
    exact get?_erase_id_coordinates hown
  · rw [if_neg hempty]
    exact hown

/-- A field of its own stands in the record as it stands in the bare tree. -/
theorem get?_tileEntityRecord_of_isOwnKey (place : BlockPos) (h : isOwnKey key = true) :
    (tileEntityRecord place tree).get? key = (Compound.bare tree).get? key := by
  rcases isOwnKey_iff.1 h with ⟨hid, hx, hy, hz⟩
  rw [get?_tileEntityRecord_of_ne hid hx hy hz, get?_bare_of_isOwnKey h]

theorem isNumeric_bare_id (h : tree.Distinct) :
    isNumeric ((Compound.bare tree).get? "id") = false := by
  rw [get?_bare_id h]
  by_cases hempty : Compound.nameText tree = ""
  · rw [if_pos hempty]
    rfl
  · rw [if_neg hempty]
    rfl

theorem itemKey?_tileEntityRecord (place : BlockPos) (h : tree.Distinct) :
    itemKey? (tileEntityRecord place tree) = itemKey? (Compound.bare tree) := by
  -- Neither the name in the record nor the one in the bare tree is a number, so both are items
  -- under `Item` or not at all.
  have hrecord : isNumeric ((tileEntityRecord place tree).get? "id") = false := by
    rw [(get?_tileEntityRecord place tree).1]
    rfl
  rw [itemKey?_of_not_numeric hrecord, itemKey?_of_not_numeric (isNumeric_bare_id h)]
  simp only [OrderedMap.contains_eq_isSome_get?,
    get?_tileEntityRecord_of_isOwnKey place (show isOwnKey "Item" = true by decide),
    get?_tileEntityRecord_of_isOwnKey place (show isOwnKey "Count" = true by decide),
    get?_tileEntityRecord_of_isOwnKey place (show isOwnKey "Meta" = true by decide)]

theorem isDoor_tileEntityRecord (place : BlockPos) (h : tree.Distinct) :
    isDoor (tileEntityRecord place tree) = isDoor (Compound.bare tree) := by
  unfold isDoor Compound.getString? Compound.getAs?
  rw [(get?_tileEntityRecord place tree).1, get?_bare_id h]
  by_cases hempty : Compound.nameText tree = ""
  · rw [if_pos hempty, hempty]
    decide
  · rw [if_neg hempty]

/-- Neither a text nor an int under an added key is a number of the registry. -/
theorem fieldIds_of_added {door : Bool} {entry : String × Tag} (hkey : isOwnKey entry.1 = false)
    (hvalue : (∃ s, entry.2 = .string s) ∨ ∃ v, entry.2 = .int v) : fieldIds door entry = [] := by
  rcases entry with ⟨key, tag⟩
  have hfield : doorField? door key = none := by
    rcases added_of_not_isOwnKey hkey with hadded | hadded | hadded | hadded <;>
      change key = _ at hadded <;> subst hadded <;> cases door <;> decide
  -- Texts hold nothing, and an int holds a number only under the names of a door.
  rcases hvalue with ⟨s, rfl⟩ | ⟨v, rfl⟩
  · exact (asks_pure (Tag.string s)).asked_eq
  · unfold fieldIds
    rw [hfield]
    exact (asks_pure (Tag.int v)).asked_eq

/-- Only the fields of its own count for the numbers in a tree. -/
theorem flatMap_fieldIds_eq {door : Bool} {entries : List (String × Tag)}
    (h : ∀ entry ∈ entries, isOwnKey entry.1 = false →
      (∃ s, entry.2 = .string s) ∨ ∃ v, entry.2 = .int v) :
    entries.flatMap (fieldIds door) =
      (entries.filter fun entry => isOwnKey entry.1).flatMap (fieldIds door) := by
  induction entries with
  | nil => rfl
  | cons entry rest ih =>
      rcases List.forall_mem_cons.1 h with ⟨hentry, hrest⟩
      rw [List.flatMap_cons, ih hrest, List.filter_cons]
      by_cases hkey : isOwnKey entry.1 = true
      · rw [if_pos hkey, List.flatMap_cons]
      · have hadded : isOwnKey entry.1 = false := by simpa using hkey
        rw [if_neg hkey, fieldIds_of_added hadded (hentry hadded), List.nil_append]

theorem added_of_mem_tileEntityRecord (h : tree.Distinct) :
    ∀ entry ∈ (tileEntityRecord place tree).entries, isOwnKey entry.1 = false →
      (∃ s, entry.2 = .string s) ∨ ∃ v, entry.2 = .int v := by
  intro entry hentry hkey
  have hget := OrderedMap.get?_of_mem (distinct_tileEntityRecord h) hentry
  rcases get?_tileEntityRecord place tree with ⟨hid, hx, hy, hz⟩
  rcases added_of_not_isOwnKey hkey with hadded | hadded | hadded | hadded <;> rw [hadded] at hget
  · exact .inl ⟨_, Option.some.inj (hget.symm.trans hid)⟩
  · exact .inr ⟨_, Option.some.inj (hget.symm.trans hx)⟩
  · exact .inr ⟨_, Option.some.inj (hget.symm.trans hy)⟩
  · exact .inr ⟨_, Option.some.inj (hget.symm.trans hz)⟩

theorem added_of_mem_bare (h : tree.Distinct) :
    ∀ entry ∈ (Compound.bare tree).entries, isOwnKey entry.1 = false →
      (∃ s, entry.2 = .string s) ∨ ∃ v, entry.2 = .int v := by
  intro entry hentry hkey
  have hget := OrderedMap.get?_of_mem (distinct_bare h) hentry
  rcases get?_bare_coordinates h with ⟨hx, hy, hz⟩
  rcases added_of_not_isOwnKey hkey with hadded | hadded | hadded | hadded <;> rw [hadded] at hget
  · rw [get?_bare_id h] at hget
    by_cases hempty : Compound.nameText tree = ""
    · simp [hempty] at hget
    · rw [if_neg hempty] at hget
      exact .inl ⟨_, (Option.some.inj hget).symm⟩
  · simp [hx] at hget
  · simp [hy] at hget
  · simp [hz] at hget

/-- The added fields hold no numbers, so a record holds those of the bare tree. -/
theorem heldIds_tileEntityRecord (place : BlockPos) (h : tree.Distinct) :
    Compound.heldIds (tileEntityRecord place tree) = Compound.heldIds (Compound.bare tree) := by
  have hnested : ∀ key, isOwnKey key = true →
      Compound.getCompound? (tileEntityRecord place tree) key =
        Compound.getCompound? (Compound.bare tree) key := by
    intro key hkey
    unfold Compound.getCompound? Compound.getAs?
    rw [get?_tileEntityRecord_of_isOwnKey place hkey]
  have hsame := itemKey?_tileEntityRecord place h
  -- An item record is searched at three fields of its own; any other tree field by field.
  cases hkey : itemKey? (Compound.bare tree) with
  | some key =>
      have hown : isOwnKey key = true := by
        rw [itemKey?_of_not_numeric (isNumeric_bare_id h)] at hkey
        split at hkey
        · cases hkey
          decide
        · cases hkey
      rw [Compound.heldIds_of_item (hsame.trans hkey), Compound.heldIds_of_item hkey,
        get?_tileEntityRecord_of_isOwnKey place hown, hnested "tag" (by decide),
        hnested "d" (by decide)]
  | none =>
      rw [Compound.heldIds_of_not_item (hsame.trans hkey), Compound.heldIds_of_not_item hkey,
        isDoor_tileEntityRecord place h, flatMap_fieldIds_eq (added_of_mem_tileEntityRecord h),
        flatMap_fieldIds_eq (added_of_mem_bare h), filter_tileEntityRecord, filter_bare]

end

end VoxelSchematic
