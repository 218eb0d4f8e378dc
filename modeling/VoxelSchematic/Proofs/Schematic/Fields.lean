import VoxelSchematic.Proofs.Schematic.Entities
import VoxelSchematic.Proofs.Schematic.Planes
import VoxelSchematic.Proofs.Space

/-!
# Fields there and back

What the fields of a written schematic say when they are read: the region and the origin, also
where the difference between them wraps, the planes, the mapping sections and the records.
-/

namespace VoxelSchematic

open Schematic Decoded

namespace Clipboard

variable {c : Clipboard} {table : RemapTable} {key : String}

/-- The fields of a schematic as they are listed. -/
def fieldList (c : Clipboard) (table : RemapTable) : List (String × Tag) :=
  [(Field.width, sideTag c.region.width), (Field.length, sideTag c.region.length),
    (Field.height, sideTag c.region.height), (Field.materials, Tag.string alpha)]
  ++ Field.origin.zip [Tag.int c.region.min.x, Tag.int c.region.min.y, Tag.int c.region.min.z]
  ++ Field.offset.zip [Tag.int (c.region.min - c.origin).x, Tag.int (c.region.min - c.origin).y,
      Tag.int (c.region.min - c.origin).z]
  ++ [(Field.blocks, Tag.byteArray (c.cells.map fun cell => cell.storedId.toUInt8)),
    (Field.data, Tag.byteArray (c.cells.map fun cell => cell.data.toUInt8))]
  ++ optionalPlane Field.extraData (c.cells.map Cell.highData) id
  ++ optionalPlane Field.addBlocks (c.cells.map Cell.highId) NibblePlane.ofValues
  ++ [(Field.tileEntities, Tag.list (TagList.ofCompounds c.tileEntityRecords)),
    (Field.entities, Tag.list (TagList.ofCompounds (c.entities.toList.map Entity.record))),
    (Field.blockMapping, Tag.compound table.toSections.1),
    (Field.itemMapping, Tag.compound table.toSections.2)]

theorem optionalPlane_eq (key : String) (values : Array UInt8) (pack : Array UInt8 → Array UInt8) :
    optionalPlane key values pack =
      ((neededPlane? values pack).map fun plane => (key, Tag.byteArray plane)).toList := by
  unfold optionalPlane neededPlane?
  split <;> rfl

/-- The names of the fields in order, given those of the planes for high bits. -/
def fieldNames (high : List String) : List String :=
  [Field.width, Field.length, Field.height, Field.materials] ++ Field.origin ++ Field.offset
    ++ [Field.blocks, Field.data] ++ high
    ++ [Field.tileEntities, Field.entities, Field.blockMapping, Field.itemMapping]

/-- All names that a field may have. -/
def allNames : List String := fieldNames ([Field.extraData] ++ [Field.addBlocks])

theorem keys_optionalPlane (key : String) (values : Array UInt8)
    (pack : Array UInt8 → Array UInt8) :
    ((optionalPlane key values pack).map Prod.fst).Sublist [key] := by
  rw [optionalPlane_eq]
  cases neededPlane? values pack with
  | none => exact List.nil_sublist _
  | some plane => exact List.Sublist.refl _

theorem keys_optionalPlane_of_none {values : Array UInt8} {pack : Array UInt8 → Array UInt8}
    (h : neededPlane? values pack = none) :
    ((optionalPlane key values pack).map Prod.fst).Sublist [] := by
  rw [optionalPlane_eq, h]
  exact List.Sublist.refl _

theorem keys_fieldList (table : RemapTable) {extra adds : List String}
    (hextra : ((optionalPlane Field.extraData (c.cells.map Cell.highData) id).map
      Prod.fst).Sublist extra)
    (hadds : ((optionalPlane Field.addBlocks (c.cells.map Cell.highId) NibblePlane.ofValues).map
      Prod.fst).Sublist adds) :
    ((c.fieldList table).map Prod.fst).Sublist (fieldNames (extra ++ adds)) := by
  simp only [fieldList, fieldNames, List.map_append, ← List.append_assoc]
  exact (((List.Sublist.refl _).append hextra).append hadds).append (List.Sublist.refl _)

theorem keys_fieldList_sublist (c : Clipboard) (table : RemapTable) :
    ((c.fieldList table).map Prod.fst).Sublist allNames :=
  keys_fieldList table (keys_optionalPlane _ _ _) (keys_optionalPlane _ _ _)

theorem nodup_allNames : allNames.Nodup := by decide

/-- No name is listed twice, so that every field that is listed stays. -/
theorem fields_mk (c : Clipboard) (table : RemapTable) : c.fields table = ⟨c.fieldList table⟩ :=
  OrderedMap.ofList_of_nodup (nodup_allNames.sublist (keys_fieldList_sublist c table))

theorem entries_fields (c : Clipboard) (table : RemapTable) :
    (c.fields table).entries = c.fieldList table := by
  rw [fields_mk]

theorem get?_fields {tag : Tag} (h : (key, tag) ∈ c.fieldList table) :
    (c.fields table).get? key = some tag := by
  have hentry : (key, tag) ∈ (c.fields table).entries := by
    rw [entries_fields]
    exact h
  have hget := OrderedMap.get?_of_mem (OrderedMap.distinct_ofList (c.fieldList table)) hentry
  exact hget

theorem get?_fields_of_not_mem (h : key ∉ allNames) : (c.fields table).get? key = none := by
  rw [OrderedMap.get?_eq_none_iff, OrderedMap.keys, entries_fields]
  exact fun hkey => h ((keys_fieldList_sublist c table).subset hkey)

/-- A plane is a field if it is needed, and else there is no such field. -/
theorem get?_fields_plane {values : Array UInt8} {pack : Array UInt8 → Array UInt8}
    (hsome : ∀ plane, neededPlane? values pack = some plane →
      (key, Tag.byteArray plane) ∈ c.fieldList table)
    (hnone : neededPlane? values pack = none → key ∉ (c.fieldList table).map Prod.fst) :
    (c.fields table).get? key = (neededPlane? values pack).map Tag.byteArray := by
  cases hneeded : neededPlane? values pack with
  | some plane => exact get?_fields (hsome plane hneeded)
  | none =>
      have hget : (c.fields table).get? key = none := by
        rw [OrderedMap.get?_eq_none_iff, OrderedMap.keys, entries_fields]
        exact hnone hneeded
      exact hget

theorem get?_extraData (c : Clipboard) (table : RemapTable) :
    (c.fields table).get? Field.extraData = c.planes.extra.map Tag.byteArray := by
  refine get?_fields_plane (fun plane hplane => ?_) fun hnone => ?_
  · simp [fieldList, optionalPlane_eq, hplane]
  · have hkeys := keys_fieldList table (keys_optionalPlane_of_none hnone) (keys_optionalPlane _ _ _)
    exact fun hkey => absurd (hkeys.subset hkey) (by decide)

theorem get?_addBlocks (c : Clipboard) (table : RemapTable) :
    (c.fields table).get? Field.addBlocks =
      (neededPlane? (c.cells.map Cell.highId) NibblePlane.ofValues).map Tag.byteArray := by
  refine get?_fields_plane (fun plane hplane => ?_) fun hnone => ?_
  · simp [fieldList, optionalPlane_eq, hplane]
  · have hkeys := keys_fieldList table (keys_optionalPlane _ _ _) (keys_optionalPlane_of_none hnone)
    exact fun hkey => absurd (hkeys.subset hkey) (by decide)

theorem getByteArray?_of_get? {tree : Compound} {plane? : Option (Array UInt8)}
    (h : tree.get? key = plane?.map Tag.byteArray) : tree.getByteArray? key = plane? := by
  rw [Compound.getByteArray?, Compound.getAs?, h]
  cases plane? with
  | none => rfl
  | some plane => rfl

theorem getByteArray?_extraData (c : Clipboard) (table : RemapTable) :
    Compound.getByteArray? (c.fields table) Field.extraData = c.planes.extra :=
  getByteArray?_of_get? (get?_extraData c table)

theorem getByteArray?_addBlocks (c : Clipboard) (table : RemapTable) :
    Compound.getByteArray? (c.fields table) Field.addBlocks =
      neededPlane? (c.cells.map Cell.highId) NibblePlane.ofValues :=
  getByteArray?_of_get? (get?_addBlocks c table)

theorem getByteArray?_of_not_mem (h : key ∉ allNames) :
    Compound.getByteArray? (c.fields table) key = none := by
  rw [Compound.getByteArray?, Compound.getAs?, get?_fields_of_not_mem h, Option.bind_none]

end Clipboard

/-! ## Reading -/

theorem Decoded.required_eq {α : Type} {tree : Compound} {key : String} {expected : TagType}
    {read : Tag → Option α} {tag : Tag} {value : α} (hget : tree.get? key = some tag)
    (hread : read tag = some value) : required tree key expected read = .ok value := by
  rw [required, Compound.require, hget]
  simp only [hread]
  rfl

namespace Clipboard

variable {c : Clipboard}

theorem checkMaterials_fields (c : Clipboard) (table : RemapTable) :
    checkMaterials (c.fields table) = .ok () := by
  have hblocks : (c.fields table).contains Field.blocks = true := by
    have hget : (c.fields table).get? Field.blocks =
        some (.byteArray (c.cells.map fun cell => cell.storedId.toUInt8)) :=
      get?_fields (by simp [fieldList])
    rw [OrderedMap.contains_eq_isSome_get?, hget]
    rfl
  have hmaterials : required (c.fields table) Field.materials .string Tag.asString? = .ok alpha :=
    required_eq (get?_fields (by simp [fieldList] : (_, Tag.string alpha) ∈ c.fieldList table)) rfl
  unfold checkMaterials
  rw [hblocks, hmaterials]
  rfl

/-- A side that fits comes back, also where its sixteen bits stand for a negative short. -/
theorem side_fields {table : RemapTable} {key : String} {size : UInt32}
    (hsize : size.toNat ≤ maxSide) (h : (key, sideTag size) ∈ c.fieldList table) :
    side (c.fields table) key = .ok size := by
  have hback : size.toUInt16.toInt16.toUInt16.toUInt32 = size := by
    apply UInt32.toNat_inj.1
    have hlt : size.toNat < 65536 := Nat.lt_succ_of_le hsize
    simpa using Nat.mod_eq_of_lt hlt
  have hrequired : required (c.fields table) key .short Tag.asShort? = .ok size.toUInt16.toInt16 :=
    required_eq (get?_fields h) rfl
  rw [side, hrequired]
  exact congrArg Except.ok hback

/-- The origin comes back from its distance to the minimum corner. -/
theorem anchorage_fields (c : Clipboard) (table : RemapTable) :
    anchorage (c.fields table) = (c.region.min, c.origin) := by
  have hint : ∀ {key : String} {v : Int32}, (key, Tag.int v) ∈ c.fieldList table →
      Compound.getInt? (c.fields table) key = some v := by
    intro key v hentry
    rw [Compound.getInt?, Compound.getAs?, get?_fields hentry]
    rfl
  -- Three ints each, so that neither corner counts as absent.
  have hmin : vector? (c.fields table) Field.origin = some c.region.min := by
    rw [Field.origin, vector?, hint (v := c.region.min.x) (by simp [fieldList, Field.origin]),
      hint (v := c.region.min.y) (by simp [fieldList, Field.origin]),
      hint (v := c.region.min.z) (by simp [fieldList, Field.origin])]
    rfl
  have hoffset : vector? (c.fields table) Field.offset = some (c.region.min - c.origin) := by
    rw [Field.offset, vector?,
      hint (v := (c.region.min - c.origin).x) (by simp [fieldList, Field.offset]),
      hint (v := (c.region.min - c.origin).y) (by simp [fieldList, Field.offset]),
      hint (v := (c.region.min - c.origin).z) (by simp [fieldList, Field.offset])]
    rfl
  rw [anchorage, hmin, hoffset]
  exact congrArg (Prod.mk c.region.min) (BlockPos.sub_sub_cancel _ _)

theorem extent_fields (table : RemapTable) (small : c.region.Small) :
    extent (c.fields table) = .ok (c.region, c.origin) := by
  rcases small with ⟨hwidth, hheight, hlength⟩
  rw [extent, side_fields hwidth (by simp [fieldList]), side_fields hheight (by simp [fieldList]),
    side_fields hlength (by simp [fieldList]), anchorage_fields]
  rfl

theorem plane_fields {table : RemapTable} {key : String} {bytes : Array UInt8}
    (hsize : bytes.size = c.region.volume) (h : (key, .byteArray bytes) ∈ c.fieldList table) :
    plane (c.fields table) key c.region.volume = .ok bytes := by
  have hrequired : required (c.fields table) key .byteArray Tag.asByteArray? = .ok bytes :=
    required_eq (get?_fields h) rfl
  rw [plane, hrequired]
  exact if_pos hsize

theorem planesOf_fields (c : Clipboard) (table : RemapTable) :
    planesOf (c.fields table) c.region.volume = .ok c.planes := by
  have hsize : ∀ f : Cell → UInt8, (c.cells.map f).size = c.region.volume := by
    intro f
    rw [Array.size_map, c.size_cells]
  have hextra : firstPlane? (c.fields table) Field.extraData Field.addData = c.planes.extra := by
    rw [firstPlane?, getByteArray?_extraData, getByteArray?_of_not_mem (by decide), Option.or_none]
  -- Of the two places for the bits from the ninth on, only the first is ever written.
  have hadds : [Field.addBlocks, Field.addBlocks2].filterMap (Compound.getByteArray? (c.fields table)) =
      c.planes.adds := by
    have hsecond : Compound.getByteArray? (c.fields table) Field.addBlocks2 = none :=
      getByteArray?_of_not_mem (by decide)
    rw [List.filterMap_cons, List.filterMap_cons, hsecond, getByteArray?_addBlocks, List.filterMap_nil]
    cases hneeded : neededPlane? (c.cells.map Cell.highId) NibblePlane.ofValues with
    | none => simp [planes, hneeded]
    | some plane => simp [planes, hneeded]
  have hblocks : plane (c.fields table) Field.blocks c.region.volume = .ok c.planes.blocks :=
    plane_fields (hsize _) (by simp [fieldList, planes])
  have hdata : plane (c.fields table) Field.data c.region.volume = .ok c.planes.data :=
    plane_fields (hsize _) (by simp [fieldList, planes])
  unfold planesOf
  rw [hblocks, hdata, hextra, hadds]
  rfl

theorem getCompound?_fields {table : RemapTable} {key : String} {section_ : Compound}
    (h : (key, .compound section_) ∈ c.fieldList table) :
    Compound.getCompound? (c.fields table) key = some section_ := by
  rw [Compound.getCompound?, Compound.getAs?, get?_fields h]
  rfl

theorem entityList_fields (c : Clipboard) (table : RemapTable) :
    entityList (c.fields table) = (c.entities.toList.map Entity.record).filterMap entity? := by
  have hlist : Compound.getList? (c.fields table) Field.entities =
      some (TagList.ofCompounds (c.entities.toList.map Entity.record)) := by
    have hget : (c.fields table).get? Field.entities =
        some (.list (TagList.ofCompounds (c.entities.toList.map Entity.record))) :=
      get?_fields (by simp [fieldList])
    rw [Compound.getList?, Compound.getAs?, hget]
    rfl
  rw [entityList, hlist]
  exact congrArg (List.filterMap entity?) (compounds_ofCompounds _)

end Clipboard

end VoxelSchematic
