import VoxelSchematic.Proofs.Ieee.Widening
import VoxelSchematic.Proofs.OrderedMap
import VoxelSchematic.Schematic.Decoded
import VoxelSchematic.Schematic.Encoded

/-!
# Records of entities

* `entity?_record` says what an entity comes back as: without the fields of its tree that repeat
  what every record states, and not at all where it has no name.
* `normalised?_of_entity?`: an entity that was read comes back as it is.
-/

namespace VoxelSchematic

open Ieee Decoded

/-- A direction of quiet angles. -/
def Facing.quieted (f : Facing) : Facing := ⟨f.yaw.quieted, f.pitch.quieted⟩

theorem Facing.quieted_of_not_isNan {f : Facing} (hyaw : f.yaw.isNan = false)
    (hpitch : f.pitch.isNan = false) : f.quieted = f := by
  rw [Facing.quieted, Binary32.quieted_of_not_isNan hyaw, Binary32.quieted_of_not_isNan hpitch]

namespace Entity

/-- The fields of an entity that a record does not state elsewhere. -/
def ownFields (e : Entity) : Compound :=
  (((e.tree.getD .empty).erase "id").erase "Pos").erase "Rotation"

/-- What an entity comes back as, if it has a name. -/
def normalised? (e : Entity) : Option Entity :=
  if e.typeId = "" then none
  else some (Entity.withTree ⟨e.typeId, e.position, e.facing.quieted, none⟩ e.ownFields)

variable {e : Entity}

theorem record_eq (e : Entity) :
    e.record = ((e.ownFields.insert "id" (.string e.typeId)).insert "Pos"
      (.list (TagList.ofDoubles [e.position.x, e.position.y, e.position.z]))).insert "Rotation"
        (.list (TagList.ofFloats [e.facing.yaw, e.facing.pitch])) := rfl

/-- The fields of a record that are an entity's own. -/
def ofRecord (record : Compound) : Compound :=
  ((record.erase "id").erase "Pos").erase "Rotation"

theorem ofRecord_ofRecord {record : Compound} (h : record.Distinct) :
    ofRecord (ofRecord record) = ofRecord record := by
  have hid : (ofRecord record).get? "id" = none := by
    rw [ofRecord, OrderedMap.get?_erase_of_ne (by decide), OrderedMap.get?_erase_of_ne (by decide)]
    exact OrderedMap.get?_erase_self h
  have hpos : (ofRecord record).get? "Pos" = none := by
    rw [ofRecord, OrderedMap.get?_erase_of_ne (by decide)]
    exact OrderedMap.get?_erase_self (h.erase "id")
  have hrotation : (ofRecord record).get? "Rotation" = none :=
    OrderedMap.get?_erase_self ((h.erase "id").erase "Pos")
  calc
    ofRecord (ofRecord record) = ((ofRecord record).erase "Pos").erase "Rotation" := by
      rw [ofRecord, OrderedMap.erase_of_not_mem (OrderedMap.get?_eq_none_iff.1 hid)]
    _ = (ofRecord record).erase "Rotation" := by
      rw [OrderedMap.erase_of_not_mem (OrderedMap.get?_eq_none_iff.1 hpos)]
    _ = ofRecord record := OrderedMap.erase_of_not_mem (OrderedMap.get?_eq_none_iff.1 hrotation)

/-- Taking the added fields off again leaves the fields of the entity's own. -/
theorem erase_record (h : ∀ tree, e.tree = some tree → tree.Distinct) :
    ofRecord e.record = e.ownFields := by
  have hdistinct : OrderedMap.Distinct (e.tree.getD .empty) := by
    cases htree : e.tree with
    | none => exact OrderedMap.distinct_empty
    | some tree => exact h tree htree
  calc
    ofRecord e.record = ofRecord e.ownFields := by
      rw [record_eq, ofRecord, OrderedMap.erase_insert_of_ne (by decide),
        OrderedMap.erase_insert_of_ne (by decide), OrderedMap.erase_insert_self,
        OrderedMap.erase_insert_of_ne (by decide), OrderedMap.erase_insert_self,
        OrderedMap.erase_insert_self, ofRecord]
    _ = e.ownFields := ofRecord_ofRecord hdistinct

theorem entity?_record (h : ∀ tree, e.tree = some tree → tree.Distinct) :
    entity? e.record = e.normalised? := by
  have hid : Compound.getString? e.record "id" = some e.typeId := by
    simp [record_eq, Compound.getString?, Compound.getAs?, OrderedMap.get?_insert, Tag.asString?]
  have hposition : Compound.getList? e.record "Pos" =
      some (TagList.ofDoubles [e.position.x, e.position.y, e.position.z]) := by
    simp [record_eq, Compound.getList?, Compound.getAs?, OrderedMap.get?_insert, Tag.asList?]
  have hfacing : Compound.getList? e.record "Rotation" =
      some (TagList.ofFloats [e.facing.yaw, e.facing.pitch]) := by
    simp [record_eq, Compound.getList?, Compound.getAs?, OrderedMap.get?_insert, Tag.asList?]
  have hown : ((e.record.erase "id").erase "Pos").erase "Rotation" = e.ownFields := erase_record h
  unfold entity? normalised?
  rw [hown, hid, hposition, hfacing]
  by_cases hname : e.typeId = ""
  · simp [hname]
  · simp [hname, Facing.quieted, TagList.floatAt, TagList.get?, TagList.ofDoubles, TagList.ofFloats,
      Tag.toFloat?, Binary32.narrow_widen, Entity.withTree]

/-! ## Entities that were read -/

theorem getD_tree_withTree (e : Entity) (tree : Compound) :
    (e.withTree tree).tree.getD .empty = tree := by
  rcases tree with ⟨entries⟩
  cases entries with
  | nil => rfl
  | cons entry rest => rfl

theorem quieted_facing (rotation : Option TagList) :
    Facing.quieted ((rotation.map fun list =>
      (⟨(list.floatAt 0).narrow, (list.floatAt 1).narrow⟩ : Facing)).getD {}) =
      (rotation.map fun list =>
        (⟨(list.floatAt 0).narrow, (list.floatAt 1).narrow⟩ : Facing)).getD {} := by
  cases rotation with
  | none => exact Facing.quieted_of_not_isNan (by decide) (by decide)
  | some list => simp [Facing.quieted, Binary32.quieted_narrow]

/-- Whatever was read as an entity has a name and quiet angles, and its tree is what the record does
not state elsewhere. -/
theorem of_entity? {record : Compound} (read : entity? record = some e) :
    e.typeId ≠ "" ∧ e.facing.quieted = e.facing ∧ e.withTree (ofRecord record) = e := by
  unfold entity? at read
  by_cases hname : ((Compound.getString? record "id").getD "").isEmpty = true
  · rw [if_pos hname] at read
    cases read
  · rw [if_neg hname] at read
    cases read
    exact ⟨by simpa [withTree, String.isEmpty_iff] using hname, quieted_facing _, rfl⟩

theorem getD_tree_of_entity? {record : Compound} (read : entity? record = some e) :
    e.tree.getD .empty = ofRecord record := by
  rw [← (of_entity? read).2.2]
  exact getD_tree_withTree e _

/-- An entity that was read comes back as it is. -/
theorem normalised?_of_entity? {record : Compound} (h : record.Distinct)
    (read : entity? record = some e) : e.normalised? = some e := by
  rcases of_entity? read with ⟨hname, hfacing, htree⟩
  have hown : e.ownFields = ofRecord record := by
    rw [ownFields, getD_tree_of_entity? read]
    exact ofRecord_ofRecord h
  rw [normalised?, if_neg hname, hown, hfacing]
  exact congrArg some htree

theorem distinct_tree_of_entity? {record tree : Compound} (h : record.Distinct)
    (read : entity? record = some e) (htree : e.tree = some tree) : tree.Distinct := by
  have hown := getD_tree_of_entity? read
  rw [htree, Option.getD_some] at hown
  rw [hown]
  exact ((h.erase "id").erase "Pos").erase "Rotation"

end Entity

/-- The entities of a schematic, read back from their records. -/
theorem compounds_ofCompounds (items : List Compound) :
    TagList.compounds (TagList.ofCompounds items) = items := by
  simp [TagList.compounds, TagList.ofCompounds, List.filterMap_map, Function.comp_def,
    Tag.asCompound?]

end VoxelSchematic
