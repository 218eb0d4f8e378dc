import VoxelSchematic.Proofs.Schematic.Mapping
import VoxelSchematic.Proofs.Schematic.Offers

/-!
# What is wrong with a schematic

* `TagFile.faults` lists everything that keeps a file from being read, in the order in which a
  reader looks for it.
* `Decoded.stopsAt_ofFile`: a reader fails with the first fault and reads every file without one.
* `TagFile.readInto_faults` carries this over to stores. A file that is refused is refused before
  there is a store, and fields that are not in the list do not matter.
-/

namespace VoxelSchematic

open Schematic Telling

/-! ## Faults of the fields -/

namespace Compound

variable {tree tree' : Compound} {key : String}

/-- A field that must be there, and of one type. -/
def fieldFaults (tree : Compound) (key : String) (expected : TagType) : List FormatError :=
  match tree.get? key with
  | none => [.missingTag key]
  | some tag => if tag.kind = expected then [] else [.wrongTagType key expected tag.kind]

def materialsFaults (tree : Compound) : List FormatError :=
  tree.fieldFaults Field.materials .string ++
    ((tree.getString? Field.materials).filter (· ≠ alpha)).toList.map .unsupportedMaterials

/-- A side as a number without a sign; a side that is not stated counts as none. -/
def statedSide (tree : Compound) (key : String) : Nat :=
  ((tree.getShort? key).map fun size => size.toUInt16.toNat).getD 0

def statedVolume (tree : Compound) : Nat :=
  tree.statedSide Field.width * tree.statedSide Field.height * tree.statedSide Field.length

/-- A plane that must be there, with one byte for each cell. -/
def planeFaults (tree : Compound) (key : String) : List FormatError :=
  tree.fieldFaults key .byteArray ++
    ((tree.getByteArray? key).filter (·.size ≠ tree.statedVolume)).toList.map fun bytes =>
      .arrayLength key tree.statedVolume bytes.size

/-- The entries of a section that are no shorts. -/
def entryFaults (section_ : String) (entries : List (String × Tag)) : List FormatError :=
  (entries.filter (·.2.kind ≠ .short)).map fun entry =>
    .wrongTagType (section_ ++ "." ++ entry.1) .short entry.2.kind

/-- A section may be missing, and whatever is no compound counts as missing. -/
def sectionFaults (tree : Compound) (key : String) : List FormatError :=
  match tree.getCompound? key with
  | none => []
  | some fields => entryFaults key fields.entries

/-- What is wrong with the fields of a schematic, in the order in which they are looked at. -/
def faults (tree : Compound) : List FormatError :=
  (if tree.contains Field.blocks then [] else [.missingTag Field.blocks]) ++
  tree.materialsFaults ++
  [Field.width, Field.height, Field.length].flatMap (tree.fieldFaults · .short) ++
  [Field.blocks, Field.data].flatMap tree.planeFaults ++
  [Field.blockMapping, Field.itemMapping].flatMap tree.sectionFaults ++
  tree.fieldFaults Field.tileEntities .list

theorem fieldFaults_congr (h : tree'.get? key = tree.get? key) (expected : TagType) :
    tree'.fieldFaults key expected = tree.fieldFaults key expected := by
  rw [fieldFaults, fieldFaults, h]

theorem getAs?_congr {α : Type} (h : tree'.get? key = tree.get? key) (read : Tag → Option α) :
    tree'.getAs? key read = tree.getAs? key read := by
  rw [getAs?, getAs?, h]

theorem planeFaults_congr (h : tree'.get? key = tree.get? key)
    (volume : tree'.statedVolume = tree.statedVolume) :
    tree'.planeFaults key = tree.planeFaults key := by
  rw [planeFaults, planeFaults, fieldFaults_congr h, getByteArray?, getAs?_congr h, volume]
  rfl

/-- Only the fields that are looked at matter: of the tile entities their type, and of a section
what it says as a compound. -/
theorem faults_congr
    (same : ∀ key ∈ [Field.blocks, Field.materials, Field.width, Field.height, Field.length,
      Field.data], tree'.get? key = tree.get? key)
    (sections : ∀ key ∈ [Field.blockMapping, Field.itemMapping],
      tree'.getCompound? key = tree.getCompound? key)
    (listed : (tree'.get? Field.tileEntities).map Tag.kind =
      (tree.get? Field.tileEntities).map Tag.kind) : tree'.faults = tree.faults := by
  simp only [List.forall_mem_cons] at same sections
  rcases same with ⟨hblocks, hmaterials, hwidth, hheight, hlength, hdata, -⟩
  rcases sections with ⟨hblockMapping, hitemMapping, -⟩
  have hcontains : tree'.contains Field.blocks = tree.contains Field.blocks := by
    rw [OrderedMap.contains_eq_isSome_get?, OrderedMap.contains_eq_isSome_get?, hblocks]
  have hrefused : tree'.materialsFaults = tree.materialsFaults := by
    rw [materialsFaults, materialsFaults, fieldFaults_congr hmaterials, getString?,
      getAs?_congr hmaterials]
    rfl
  have hvolume : tree'.statedVolume = tree.statedVolume := by
    simp only [statedVolume, statedSide, getShort?, getAs?_congr hwidth, getAs?_congr hheight,
      getAs?_congr hlength]
  have hlist : tree'.fieldFaults Field.tileEntities .list =
      tree.fieldFaults Field.tileEntities .list := by
    unfold fieldFaults
    cases hfound : tree.get? Field.tileEntities with
    | none =>
        rw [hfound] at listed
        rw [Option.map_eq_none_iff.1 listed]
    | some tag =>
        rw [hfound] at listed
        rcases Option.map_eq_some_iff.1 listed with ⟨tag', hfound', hkind⟩
        simp only [hfound', hkind]
  simp only [faults, sectionFaults, List.flatMap_cons, hcontains, hrefused, fieldFaults_congr hwidth,
    fieldFaults_congr hheight, fieldFaults_congr hlength, planeFaults_congr hblocks hvolume,
    planeFaults_congr hdata hvolume, hblockMapping, hitemMapping, hlist, List.flatMap_nil]

end Compound

/-- What is wrong with a file: its name, its root, and then the fields of the root. -/
def TagFile.faults (file : TagFile) : List FormatError :=
  (if file.name = rootName then [] else [.wrongRootName file.name]) ++
    match file.root.asCompound? with
    | none => [.wrongTagType rootName .compound file.root.kind]
    | some tree => tree.faults

/-! ## Readers stop at the first fault -/

namespace Tag

/-- A way to read the tags of one type, and no others. -/
def ReadsKind {α : Type} (read : Tag → Option α) (kind : TagType) : Prop :=
  ∀ tag, (read tag).isSome = true ↔ tag.kind = kind

theorem readsKind_asShort? : ReadsKind asShort? .short := fun tag => by
  cases tag <;> simp [asShort?, kind]

theorem readsKind_asString? : ReadsKind asString? .string := fun tag => by
  cases tag <;> simp [asString?, kind]

theorem readsKind_asByteArray? : ReadsKind asByteArray? .byteArray := fun tag => by
  cases tag <;> simp [asByteArray?, kind]

theorem readsKind_asList? : ReadsKind asList? .list := fun tag => by
  cases tag <;> simp [asList?, kind]

end Tag

namespace RemapTable

variable {ε : Type}

theorem stopsAt_readEntries (section_ : String) (entries : List (String × Tag)) (t : IdTable) :
    StopsAt (readEntries section_ entries t) (Compound.entryFaults section_ entries) := by
  induction entries generalizing t with
  | nil => exact stopsAt_pure t
  | cons entry rest ih =>
      rcases entry with ⟨name, tag⟩
      cases tag with
      | short id => exact (reports_assign t name id.toUInt16).yields.stopsAt.bind fun t' _ => ih t'
      | _ => exact fails_throw _

/-- A name that is not known is no fault. -/
theorem stopsAt_translate (kind : IdKind) (lookup : String → Option UInt16)
    (pairs : List (String × UInt16)) (done : Std.TreeMap UInt16 UInt16) :
    StopsAt (translate kind lookup pairs done : Telling ε (Std.TreeMap UInt16 UInt16)) [] := by
  induction pairs generalizing done with
  | nil => exact stopsAt_pure done
  | cons entry rest ih =>
      rcases entry with ⟨name, old⟩
      rw [translate]
      cases lookup name with
      | some new => exact ih (done.insert old new)
      | none => exact (yields_warn _).stopsAt.bind fun _ _ => ih done

theorem stopsAt_conversion (t : RemapTable) (r : Registry) :
    StopsAt (t.conversion r : Telling ε Conversion) [] :=
  (stopsAt_translate .block r.blockId? t.blocks.pairs ∅).bind_faultless fun _ =>
    (stopsAt_translate .item r.itemId? t.items.pairs ∅).bind_faultless fun _ => stopsAt_pure _

/-- What is wrong with one section, where there is one. -/
def strays (section_ : String) (fields : Option Compound) : List FormatError :=
  match fields with
  | none => []
  | some fields => Compound.entryFaults section_ fields.entries

theorem stopsAt_readSection (section_ : String) (fields : Option Compound) :
    StopsAt (readSection section_ fields) (strays section_ fields) := by
  unfold readSection strays
  cases fields with
  | none => exact stopsAt_pure _
  | some fields => exact stopsAt_readEntries section_ fields.entries .empty

theorem stopsAt_ofSections (blocks items : Option Compound) :
    StopsAt (ofSections blocks items)
      (strays Field.blockMapping blocks ++ strays Field.itemMapping items) :=
  (stopsAt_readSection _ blocks).bind fun _ _ =>
    (stopsAt_readSection _ items).bind_faultless fun _ => stopsAt_pure _

theorem sectionFaults_eq (tree : Compound) :
    [Field.blockMapping, Field.itemMapping].flatMap tree.sectionFaults =
      strays Field.blockMapping (tree.getCompound? Field.blockMapping) ++
        strays Field.itemMapping (tree.getCompound? Field.itemMapping) := by
  simp only [List.flatMap_cons, List.flatMap_nil, List.append_nil]
  rfl

end RemapTable

namespace Decoded

variable {α : Type} {tree : Compound} {key : String} {expected : TagType} {read : Tag → Option α}

theorem stopsAt_required (reads : Tag.ReadsKind read expected) :
    StopsAt (ofExcept (required tree key expected read)) (tree.fieldFaults key expected) := by
  unfold required Compound.require Compound.fieldFaults
  cases tree.get? key with
  | none => exact stopsAt_throw _
  | some tag =>
      by_cases hkind : tag.kind = expected
      · rcases Option.isSome_iff_exists.1 ((reads tag).2 hkind) with ⟨value, hvalue⟩
        simp only [hvalue, if_pos hkind]
        exact stopsAt_pure value
      · have hnone : read tag = none := by
          rw [← Option.not_isSome_iff_eq_none, reads tag]
          exact hkind
        simp only [hnone, if_neg hkind]
        exact stopsAt_throw _

/-- A value that is read and then found wanting. -/
theorem stopsAt_checked {β : Type} {bad : α → Bool} {fault : α → FormatError}
    {next : α → Except FormatError β} (reads : Tag.ReadsKind read expected)
    (hnext : ∀ v, StopsAt (ofExcept (next v)) (if bad v then [fault v] else [])) :
    StopsAt (ofExcept (required tree key expected read >>= next))
      (tree.fieldFaults key expected ++ ((tree.getAs? key read).filter bad).toList.map fault) := by
  rw [ofExcept_bind]
  refine (stopsAt_required reads).bind fun v hv => ?_
  rw [required_eq_ok_iff.1 (yields_ofExcept_iff.1 hv)]
  have hfaults : ((some v).filter bad).toList.map fault = if bad v then [fault v] else [] := by
    cases hbad : bad v with
    | false => simp [Option.filter, hbad]
    | true => simp [Option.filter, hbad]
  rw [hfaults]
  exact hnext v

theorem stopsAt_checkMaterials (tree : Compound) :
    StopsAt (ofExcept (checkMaterials tree))
      ((if tree.contains Field.blocks then [] else [.missingTag Field.blocks]) ++
        tree.materialsFaults) := by
  unfold checkMaterials
  by_cases hblocks : tree.contains Field.blocks = true
  · simp only [hblocks, Bool.not_true, Bool.false_eq_true, if_false, if_true, List.nil_append]
    refine stopsAt_checked Tag.readsKind_asString? fun materials => ?_
    by_cases halpha : materials = alpha
    · simp only [halpha, bne_self_eq_false, Bool.false_eq_true, if_false, ne_eq, not_true_eq_false,
        decide_false]
      exact stopsAt_pure ()
    · simp only [halpha, bne_iff_ne, ne_eq, not_false_eq_true, if_true, decide_true]
      exact stopsAt_throw _
  · simp only [hblocks, Bool.not_false, if_true, if_false, Bool.false_eq_true]
    exact fails_throw _

theorem stopsAt_side (tree : Compound) (key : String) :
    StopsAt (ofExcept (side tree key)) (tree.fieldFaults key .short) := by
  unfold side
  rw [ofExcept_bind]
  exact (stopsAt_required Tag.readsKind_asShort?).bind_faultless fun _ => stopsAt_pure _

theorem toNat_side {size : UInt32} (h : side tree key = .ok size) :
    size.toNat = tree.statedSide key := by
  simp only [side, Outcome.except_bind_eq_ok_iff, required_eq_ok_iff] at h
  rcases h with ⟨short, hshort, hsize⟩
  cases hsize
  rw [Compound.statedSide, Compound.getShort?, hshort]
  rfl

theorem stopsAt_extent (tree : Compound) :
    StopsAt (ofExcept (extent tree))
      ([Field.width, Field.height, Field.length].flatMap (tree.fieldFaults · .short)) := by
  unfold extent
  simp only [ofExcept_bind, List.flatMap_cons, List.flatMap_nil, List.append_nil]
  exact (stopsAt_side tree _).bind fun _ _ => (stopsAt_side tree _).bind fun _ _ =>
    (stopsAt_side tree _).bind_faultless fun _ => stopsAt_pure _

theorem sides_extent {region : Region} {origin : BlockPos}
    (h : extent tree = .ok (region, origin)) :
    region.width.toNat = tree.statedSide Field.width ∧
      region.height.toNat = tree.statedSide Field.height ∧
      region.length.toNat = tree.statedSide Field.length := by
  simp only [extent, Outcome.except_bind_eq_ok_iff] at h
  rcases h with ⟨width, hwidth, height, hheight, length, hlength, hregion⟩
  cases hregion
  exact ⟨toNat_side hwidth, toNat_side hheight, toNat_side hlength⟩

theorem volume_extent {region : Region} {origin : BlockPos}
    (h : extent tree = .ok (region, origin)) : region.volume = tree.statedVolume := by
  rcases sides_extent h with ⟨hwidth, hheight, hlength⟩
  rw [Region.volume, hwidth, hheight, hlength, Compound.statedVolume]

theorem stopsAt_plane (tree : Compound) (key : String) :
    StopsAt (ofExcept (plane tree key tree.statedVolume)) (tree.planeFaults key) := by
  unfold plane
  refine stopsAt_checked Tag.readsKind_asByteArray? fun bytes => ?_
  by_cases hsize : bytes.size = tree.statedVolume
  · simp only [hsize, if_true, ne_eq, not_true_eq_false, decide_false, Bool.false_eq_true, if_false]
    exact stopsAt_pure bytes
  · simp only [hsize, if_false, ne_eq, not_false_eq_true, decide_true, if_true]
    exact stopsAt_throw _

theorem stopsAt_planesOf (tree : Compound) :
    StopsAt (ofExcept (planesOf tree tree.statedVolume))
      ([Field.blocks, Field.data].flatMap tree.planeFaults) := by
  unfold planesOf
  simp only [ofExcept_bind, List.flatMap_cons, List.flatMap_nil, List.append_nil]
  exact (stopsAt_plane tree _).bind fun _ _ =>
    (stopsAt_plane tree _).bind_faultless fun _ => stopsAt_pure _

theorem stopsAt_root (file : TagFile) :
    StopsAt (ofExcept (root file))
      ((if file.name = rootName then [] else [.wrongRootName file.name]) ++
        match file.root.asCompound? with
        | none => [.wrongTagType rootName .compound file.root.kind]
        | some _ => []) := by
  unfold root
  by_cases hname : file.name = rootName
  · simp only [hname, bne_self_eq_false, Bool.false_eq_true, if_false, if_true, List.nil_append]
    cases file.root.asCompound? with
    | none => exact stopsAt_throw _
    | some tree => exact stopsAt_pure tree
  · simp only [hname, bne_iff_ne, ne_eq, not_false_eq_true, if_true, if_false]
    exact fails_throw _

/-- A reader fails with the first fault of a file, and reads files without a fault. -/
theorem stopsAt_ofFile (r : Registry) (file : TagFile) : StopsAt (ofFile r file) file.faults := by
  have hparts : file.faults =
      ((if file.name = rootName then [] else [.wrongRootName file.name]) ++
        match file.root.asCompound? with
        | none => [.wrongTagType rootName .compound file.root.kind]
        | some _ => []) ++ (file.root.asCompound?.map Compound.faults).getD [] := by
    rw [TagFile.faults, List.append_assoc]
    cases file.root.asCompound? with
    | none => rfl
    | some tree => rfl
  rw [hparts]
  unfold ofFile
  refine (stopsAt_root file).bind fun tree htree => ?_
  have hfile : file = ⟨rootName, .compound tree⟩ := of_root (yields_ofExcept_iff.1 htree)
  subst hfile
  change StopsAt _ tree.faults
  rw [Compound.faults, RemapTable.sectionFaults_eq]
  simp only [List.append_assoc]
  rw [← List.append_assoc]
  refine (stopsAt_checkMaterials tree).bind fun _ _ => (stopsAt_extent tree).bind fun place hplace => ?_
  -- The planes are compared with the volume that the sides state.
  have hvolume : place.1.volume = tree.statedVolume := volume_extent (yields_ofExcept_iff.1 hplace)
  simp only [hvolume]
  rw [← List.append_assoc (RemapTable.strays _ _)]
  refine (stopsAt_planesOf tree).bind fun planes _ =>
    (RemapTable.stopsAt_ofSections _ _).bind fun table _ => ?_
  rw [← List.nil_append (tree.fieldFaults _ _)]
  exact (RemapTable.stopsAt_conversion table r).bind fun _ _ =>
    (stopsAt_required Tag.readsKind_asList?).bind_faultless fun _ => stopsAt_pure _

end Decoded

namespace TagFile

variable {r : Registry} {file : TagFile} {σ : Type} [BlockStore σ] {said mid : Array Notice}

/-- What cannot be decoded is refused before there is a store. -/
theorem readInto_of_error {fault : FormatError} (h : Decoded.ofFile r file said = .error fault mid)
    (store : Region → BlockPos → σ) : file.readInto r store said = .error (.format fault) mid := by
  have hmapped : (Decoded.ofFile r file).mapError SchematicError.format said =
      .error (.format fault) mid := by simp [mapError, h]
  exact Outcome.bind_of_error hmapped

/-- Stores have no say in whether a file is read. -/
theorem exists_readInto_of_ok {d : Decoded} (h : Decoded.ofFile r file said = .ok d mid)
    (store : Region → BlockPos → σ) : ∃ p said', file.readInto r store said = .ok p said' := by
  rcases d.reports_place (ε := SchematicError) (store d.region d.origin) with
    ⟨answers, final, -, -, notices, htells, -⟩
  exact ⟨_, _, (Outcome.bind_of_ok (mapError_eq_ok_iff.2 h)).trans (htells mid)⟩

theorem faults_compound_congr {name : String} {tree tree' : Compound}
    (same : ∀ key ∈ [Field.blocks, Field.materials, Field.width, Field.height, Field.length,
      Field.data], tree'.get? key = tree.get? key)
    (sections : ∀ key ∈ [Field.blockMapping, Field.itemMapping],
      tree'.getCompound? key = tree.getCompound? key)
    (listed : (tree'.get? Field.tileEntities).map Tag.kind =
      (tree.get? Field.tileEntities).map Tag.kind) :
    (⟨name, .compound tree'⟩ : TagFile).faults = (⟨name, .compound tree⟩ : TagFile).faults := by
  have hfields := Compound.faults_congr same sections listed
  simp only [faults, Tag.asCompound?, hfields]

/-- Either nothing is wrong and every store is filled, or no store matters. -/
theorem readInto_cases (r : Registry) (file : TagFile) (said : Array Notice) :
    (file.faults = [] ∧ ∀ {σ : Type} [BlockStore σ] (store : Region → BlockPos → σ),
      ∃ p said', file.readInto r store said = .ok p said') ∨
    ∃ first rest said', file.faults = first :: rest ∧
      ∀ {σ : Type} [BlockStore σ] (store : Region → BlockPos → σ),
        file.readInto r store said = .error (.format first) said' := by
  have hstops := Decoded.stopsAt_ofFile r file
  cases hfaults : file.faults with
  | nil =>
      rw [hfaults] at hstops
      rcases hstops with ⟨d, hd⟩
      rcases hd said with ⟨mid, hread⟩
      exact .inl ⟨rfl, fun store => exists_readInto_of_ok hread store⟩
  | cons first rest =>
      rw [hfaults] at hstops
      rcases hstops said with ⟨mid, hread⟩
      exact .inr ⟨first, rest, mid, rfl, fun store => readInto_of_error hread store⟩

/-- A file is read if nothing is wrong with it. Otherwise the first fault is all that comes of it,
whatever store there would have been. Nothing but what `faults` lists is ever wrong. -/
theorem readInto_faults (r : Registry) (file : TagFile) (said : Array Notice) :
    (∀ {σ : Type} [BlockStore σ] (store : Region → BlockPos → σ),
      ((∃ p said', file.readInto r store said = .ok p said') ↔ file.faults = []) ∧
      ∀ fault, (∃ said', file.readInto r store said = .error fault said') ↔
        file.faults.head?.map .format = some fault) ∧
    (∀ fault, file.faults.head? = some fault →
      ∃ said', ∀ {σ : Type} [BlockStore σ] (store : Region → BlockPos → σ),
        file.readInto r store said = .error (.format fault) said') ∧
    ∀ (name : String) (tree tree' : Compound),
      (∀ key ∈ [Field.blocks, Field.materials, Field.width, Field.height, Field.length,
        Field.data], tree'.get? key = tree.get? key) →
      (∀ key ∈ [Field.blockMapping, Field.itemMapping],
        tree'.getCompound? key = tree.getCompound? key) →
      (tree'.get? Field.tileEntities).map Tag.kind =
        (tree.get? Field.tileEntities).map Tag.kind →
      (⟨name, .compound tree'⟩ : TagFile).faults = (⟨name, .compound tree⟩ : TagFile).faults := by
  rcases readInto_cases r file said with ⟨hnone, hread⟩ | ⟨first, rest, mid, hsome, hrefused⟩
  · rw [hnone]
    refine ⟨fun store => ?_, nofun, fun name tree tree' => faults_compound_congr⟩
    rcases hread store with ⟨p, said', hok⟩
    refine ⟨iff_of_true ⟨p, said', hok⟩ rfl, fun fault => iff_of_false ?_ nofun⟩
    rintro ⟨other, herror⟩
    cases hok.symm.trans herror
  · rw [hsome]
    refine ⟨fun store => ⟨iff_of_false ?_ nofun, fun fault => ?_⟩, fun fault hfault => ?_,
      fun name tree tree' => faults_compound_congr⟩
    · rintro ⟨p, said', hok⟩
      cases hok.symm.trans (hrefused store)
    · rw [List.head?_cons, Option.map_some, Option.some.injEq]
      constructor
      · rintro ⟨other, hfault⟩
        cases (hrefused store).symm.trans hfault
        rfl
      · rintro rfl
        exact ⟨mid, hrefused store⟩
    · cases hfault
      exact ⟨mid, fun store => hrefused store⟩

example : (⟨"", .compound .empty⟩ : TagFile).faults =
    [.wrongRootName "", .missingTag "Blocks", .missingTag "Materials", .missingTag "Width",
      .missingTag "Height", .missingTag "Length", .missingTag "Blocks", .missingTag "Data",
      .missingTag "TileEntities"] := rfl

end TagFile

end VoxelSchematic
