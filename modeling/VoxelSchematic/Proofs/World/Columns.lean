import VoxelSchematic.Proofs.Space
import VoxelSchematic.Proofs.Tag.Fields
import VoxelSchematic.Proofs.Telling
import VoxelSchematic.Tag.List
import VoxelSchematic.World.Chunk

/-!
# The columns of a chunk

A position is given to a chunk by rounding its coordinates down to multiples of sixteen, and a
chunk finds it by its distance from the corner of the chunk. `place?_eq` says that the two agree for
all positions and all places in the grid, so that a chunk answers for its own columns and for
nothing beside them.

* `Chunk.Holds` and `Chunk.Refuses` are the positions of the blocks of a chunk and those that it
  refuses; all others are in the air above (`held_or_above_or_refused`).
* `Chunk.Reached` is a chunk that was read from a tree and has been asked for things since.
* `Chunk.Reached.answers_own_columns` is all that a chunk says about positions.
-/

namespace VoxelSchematic

open Telling

namespace Chunk

variable {tree : Compound} {c : Chunk} {p q : BlockPos}

/-- Positions of the blocks of a chunk. -/
structure Holds (c : Chunk) (p : BlockPos) : Prop where
  bottom : 0 ≤ p.y.toInt
  top : p.y.toInt < height
  columns : coordinates p = (c.x, c.z)

/-- Positions that a chunk refuses: those below the world, and those beside its columns up to the
height of a chunk. -/
def Refuses (c : Chunk) (p : BlockPos) : Prop :=
  p.y.toInt < 0 ∨ p.y.toInt < height ∧ coordinates p ≠ (c.x, c.z)

/-- The number of a position among the blocks of the chunk that holds it. -/
def blockNumber (p : BlockPos) : Nat :=
  p.y.toInt.toNat + (p.z.toInt % side).toNat * height + (p.x.toInt % side).toNat * height * side

/-! ## Two ways to the chunk of a position -/

/-- Rounding down leaves a number that fits again. -/
theorem toInt_ofInt_div (v : Int32) : (Int32.ofInt (v.toInt / side)).toInt = v.toInt / side := by
  have hlow := v.le_toInt
  have hhigh := v.toInt_lt
  simp only [side]
  exact Int32.toInt_ofInt_of_le (by omega) (by omega)

theorem coordinates_eq_iff {x z : Int32} :
    coordinates p = (x, z) ↔ p.x.toInt / side = x.toInt ∧ p.z.toInt / side = z.toInt := by
  simp only [coordinates, Prod.mk.injEq, ← Int32.toInt_inj, toInt_ofInt_div]

/-- A distance from a corner is less than a side if rounding down leads to the corner. -/
theorem div_side_eq_iff (v corner : Int) :
    v / side = corner ↔ 0 ≤ v - corner * side ∧ v - corner * side < side := by
  simp only [side]
  omega

/-- The distance from the corner is what rounding down takes off. -/
theorem sub_corner {v corner : Int} (h : v / side = corner) : v - corner * side = v % side := by
  rw [← h, Int.emod_def, Int.mul_comm]

/-- The two ways agree: a chunk finds the positions that rounding down gives to it. -/
theorem place?_eq (c : Chunk) (p : BlockPos) :
    c.place? p =
      if (height : Int) ≤ p.y.toInt then .ok none
      else if coordinates p = (c.x, c.z) ∧ 0 ≤ p.y.toInt then .ok (some (blockNumber p))
      else .error (.outOfChunk p) := by
  have hwithin : (0 ≤ p.x.toInt - c.x.toInt * side ∧ p.x.toInt - c.x.toInt * side < side ∧
      0 ≤ p.z.toInt - c.z.toInt * side ∧ p.z.toInt - c.z.toInt * side < side ∧ 0 ≤ p.y.toInt) ↔
        coordinates p = (c.x, c.z) ∧ 0 ≤ p.y.toInt := by
    simp only [coordinates_eq_iff, div_side_eq_iff, and_assoc]
  unfold place?
  simp only [hwithin]
  by_cases hcolumns : coordinates p = (c.x, c.z)
  · rcases coordinates_eq_iff.1 hcolumns with ⟨hx, hz⟩
    simp only [sub_corner hx, sub_corner hz, blockNumber]
  · simp only [hcolumns, false_and, if_false]

theorem Holds.place? (h : c.Holds p) : c.place? p = .ok (some (blockNumber p)) := by
  simp only [place?_eq, if_neg (Int.not_le.2 h.top), if_pos (And.intro h.columns h.bottom)]

theorem place?_of_above (h : (height : Int) ≤ p.y.toInt) : c.place? p = .ok none := by
  simp only [place?_eq, if_pos h]

theorem Refuses.place? (h : c.Refuses p) : c.place? p = .error (.outOfChunk p) := by
  have hlow : ¬(height : Int) ≤ p.y.toInt := by
    have hheight : (0 : Int) < height := by decide
    rcases h with hbelow | ⟨htop, -⟩
    · omega
    · omega
  have hbeside : ¬(coordinates p = (c.x, c.z) ∧ 0 ≤ p.y.toInt) := by
    rintro ⟨hcolumns, hbottom⟩
    rcases h with hbelow | ⟨-, hother⟩
    · exact Int.not_lt.2 hbottom hbelow
    · exact hother hcolumns
  simp only [place?_eq, if_neg hlow, if_neg hbeside]

theorem held_or_above_or_refused (c : Chunk) (p : BlockPos) :
    c.Holds p ∨ (height : Int) ≤ p.y.toInt ∨ c.Refuses p := by
  by_cases habove : (height : Int) ≤ p.y.toInt
  · exact .inr (.inl habove)
  · by_cases hbottom : 0 ≤ p.y.toInt
    · by_cases hcolumns : coordinates p = (c.x, c.z)
      · exact .inl ⟨hbottom, Int.not_le.1 habove, hcolumns⟩
      · exact .inr (.inr (.inr ⟨Int.not_le.1 habove, hcolumns⟩))
    · exact .inr (.inr (.inl (Int.not_le.1 hbottom)))

/-- In the world, rounding down leads to a chunk that does not refuse the position. -/
theorem not_refuses_of_coordinates (hbottom : 0 ≤ p.y.toInt)
    (hcolumns : coordinates p = (c.x, c.z)) : ¬c.Refuses p := by
  rintro (hlow | ⟨-, hbeside⟩)
  · exact Int.not_lt.2 hbottom hlow
  · exact hbeside hcolumns

/-! ## Numbers of blocks -/

theorem Holds.blockNumber_lt (h : c.Holds p) : blockNumber p < volume := by
  have hbottom := h.bottom
  have htop := h.top
  simp only [blockNumber, volume, height, side] at htop ⊢
  omega

/-- No two positions of a chunk have one number. -/
theorem Holds.eq_of_blockNumber_eq (hp : c.Holds p) (hq : c.Holds q)
    (same : blockNumber p = blockNumber q) : p = q := by
  rcases coordinates_eq_iff.1 hp.columns with ⟨hpx, hpz⟩
  rcases coordinates_eq_iff.1 hq.columns with ⟨hqx, hqz⟩
  rcases hp with ⟨hpbottom, hptop, -⟩
  rcases hq with ⟨hqbottom, hqtop, -⟩
  rcases p with ⟨px, py, pz⟩
  rcases q with ⟨qx, qy, qz⟩
  simp only [blockNumber, height, side] at *
  have hx : px = qx := Int32.toInt_inj.1 (by omega)
  have hy : py = qy := Int32.toInt_inj.1 (by omega)
  have hz : pz = qz := Int32.toInt_inj.1 (by omega)
  simp only [hx, hy, hz]

/-- A chunk that lies in the world as a whole. -/
def InWorld (c : Chunk) : Prop :=
  (-134217728 ≤ c.x.toInt ∧ c.x.toInt ≤ 134217727) ∧
    (-134217728 ≤ c.z.toInt ∧ c.z.toInt ≤ 134217727)

/-- Rounding down leads to chunks in the world. -/
theorem inWorld_of_coordinates (h : coordinates p = (c.x, c.z)) : c.InWorld := by
  rcases coordinates_eq_iff.1 h with ⟨hx, hz⟩
  have hxlow := p.x.le_toInt
  have hxhigh := p.x.toInt_lt
  have hzlow := p.z.le_toInt
  have hzhigh := p.z.toInt_lt
  simp only [side] at hx hz
  exact ⟨⟨by omega, by omega⟩, ⟨by omega, by omega⟩⟩

/-- A chunk that lies in the world has a position for every number. -/
theorem InWorld.exists_holds (h : c.InWorld) {i : Nat} (hi : i < volume) :
    ∃ p, c.Holds p ∧ blockNumber p = i := by
  rcases h with ⟨⟨hxlow, hxhigh⟩, ⟨hzlow, hzhigh⟩⟩
  simp only [volume, height, side] at hi
  -- The three coordinates are the digits of the number, moved to the corner of the chunk.
  have hx : (Int32.ofInt (c.x.toInt * 16 + (i / 2048 : Nat))).toInt =
      c.x.toInt * 16 + (i / 2048 : Nat) := Int32.toInt_ofInt_of_le (by omega) (by omega)
  have hy : (Int32.ofInt (i % 128 : Nat)).toInt = (i % 128 : Nat) :=
    Int32.toInt_ofInt_of_le (by omega) (by omega)
  have hz : (Int32.ofInt (c.z.toInt * 16 + (i % 2048 / 128 : Nat))).toInt =
      c.z.toInt * 16 + (i % 2048 / 128 : Nat) := Int32.toInt_ofInt_of_le (by omega) (by omega)
  refine ⟨⟨.ofInt (c.x.toInt * 16 + (i / 2048 : Nat)), .ofInt (i % 128 : Nat),
    .ofInt (c.z.toInt * 16 + (i % 2048 / 128 : Nat))⟩, ⟨?_, ?_, ?_⟩, ?_⟩
  · simp only [hy]
    omega
  · simp only [hy, height]
    omega
  · simp only [coordinates_eq_iff, hx, hz, side]
    omega
  · simp only [blockNumber, hx, hy, hz, height, side]
    omega

/-! ## Blocks -/

/-- A chunk as it is read: what the tree says of it, with arrays of the right sizes, and an index
that is made from the tree if it is there at all. -/
structure Sound (tree : Compound) (c : Chunk) : Prop where
  source : c.tree = tree
  blocks : tree.getByteArray? "Blocks" = some c.blocks
  data : tree.getByteArray? "Data" = some c.data
  x : tree.getInt? "xPos" = some c.x
  z : tree.getInt? "zPos" = some c.z
  size_blocks : c.blocks.size = volume
  size_data : c.data.size = volume / 2
  index : ∀ index, c.index? = some index → indexOfTree tree = .ok index

/-- A block is looked up under its number, in range of both arrays. -/
theorem Sound.block_of_holds (sound : Sound tree c) (h : c.Holds p) :
    ∃ byte packed, c.blocks[blockNumber p]? = some byte ∧
      c.data[blockNumber p / 2]? = some packed ∧ c.blockId p = .ok byte.toUInt16 ∧
      c.blockData p =
        .ok (if blockNumber p % 2 = 0 then packed &&& 0x0F else packed >>> 4).toUInt16 := by
  have hblock : blockNumber p < c.blocks.size := by
    rw [sound.size_blocks]
    exact h.blockNumber_lt
  have hdata : blockNumber p / 2 < c.data.size := by
    have hlt := h.blockNumber_lt
    rw [sound.size_data]
    simp only [volume, side, height] at hlt ⊢
    omega
  have hnibble : NibblePlane.get? c.data (blockNumber p) =
      some (NibblePlane.half (blockNumber p) c.data[blockNumber p / 2]) := by
    simp [NibblePlane.get?, hdata]
  refine ⟨c.blocks[blockNumber p], c.data[blockNumber p / 2], Array.getElem?_eq_getElem hblock,
    Array.getElem?_eq_getElem hdata, ?_, ?_⟩
  · simp [blockId, h.place?, hblock, bind, Except.bind, pure, Except.pure]
  · simp [blockData, h.place?, hnibble, NibblePlane.half, bind, Except.bind, pure, Except.pure]

theorem block_of_above (h : (height : Int) ≤ p.y.toInt) :
    c.blockId p = .ok 0 ∧ c.blockData p = .ok 0 := by
  simp [blockId, blockData, place?_of_above h, bind, Except.bind, pure, Except.pure]

theorem block_of_refuses (h : c.Refuses p) :
    c.blockId p = .error (.outOfChunk p) ∧ c.blockData p = .error (.outOfChunk p) := by
  simp [blockId, blockData, h.place?, bind, Except.bind]

theorem Sound.block_of_not_refuses (sound : Sound tree c) (h : ¬c.Refuses p) :
    ∃ id data, c.blockId p = .ok id ∧ c.blockData p = .ok data := by
  rcases held_or_above_or_refused c p with hheld | habove | hrefused
  · rcases sound.block_of_holds hheld with ⟨byte, packed, -, -, hid, hdata⟩
    exact ⟨_, _, hid, hdata⟩
  · exact ⟨_, _, block_of_above habove⟩
  · exact absurd hrefused h

theorem Sound.refused_iff (sound : Sound tree c) :
    (c.blockId p = .error (.outOfChunk p) ↔ c.Refuses p) ∧
      (c.blockData p = .error (.outOfChunk p) ↔ c.Refuses p) := by
  by_cases hrefuses : c.Refuses p
  · rcases block_of_refuses hrefuses with ⟨hid, hdata⟩
    simp only [hid, hdata, hrefuses, and_self]
  · rcases sound.block_of_not_refuses hrefuses with ⟨id, data, hid, hdata⟩
    simp only [hid, hdata, hrefuses, reduceCtorEq, and_self]

/-! ## Tile entities -/

/-- The tree has a list of tile entities, with nothing but compounds in it. -/
def Lists (tree : Compound) (records : TagList) : Prop :=
  tree.get? "TileEntities" = some (.list records) ∧
    ∀ tag ∈ records.items, tag.kind = .compound

/-- Records by position. -/
def indexed (records : List Compound) : TileEntityIndex :=
  records.foldl (fun index record => index.insert (recordPosition record) record) ∅

theorem getElem?_indexed (records : List Compound) (p : BlockPos) :
    (indexed records)[p]? = records.reverse.find? fun record => recordPosition record == p :=
  calc
    (indexed records)[p]? =
        (records.reverse.find? fun record => recordPosition record == p).map id :=
      BlockPos.getElem?_foldl_insert recordPosition id records p
    _ = records.reverse.find? fun record => recordPosition record == p := Option.map_id_apply

theorem indexRecords_of_compounds {items : List Tag} (h : ∀ tag ∈ items, tag.kind = .compound)
    (index : TileEntityIndex) :
    indexRecords items index = .ok ((items.filterMap Tag.asCompound?).foldl
      (fun index record => index.insert (recordPosition record) record) index) := by
  induction items generalizing index with
  | nil => rfl
  | cons tag rest ih =>
      have hkind := h tag List.mem_cons_self
      cases tag with
      | compound record => exact ih (fun other hother => h other (List.mem_cons_of_mem _ hother)) _
      | _ => cases hkind

theorem indexRecords_of_stray {items : List Tag} {tag : Tag} (hmem : tag ∈ items)
    (hkind : tag.kind ≠ .compound) (index : TileEntityIndex) :
    ∃ found, indexRecords items index = .error (.strayRecord found) := by
  induction items generalizing index with
  | nil => cases hmem
  | cons first rest ih =>
      cases first with
      | compound record =>
          have hrest : tag ∈ rest := by
            rcases List.mem_cons.1 hmem with rfl | hrest
            · exact absurd rfl hkind
            · exact hrest
          exact ih hrest _
      | _ => exact ⟨_, rfl⟩

theorem indexOfTree_of_lists {records : TagList} (h : Lists tree records) :
    indexOfTree tree = .ok (indexed records.compounds) := by
  have hrequired : required tree "TileEntities" .list Tag.asList? = .ok records := by
    simp only [required, Compound.require, h.1]
    rfl
  calc
    indexOfTree tree = indexRecords records.items ∅ := by
      simp only [indexOfTree, hrequired]
      rfl
    _ = .ok (indexed records.compounds) := indexRecords_of_compounds h.2 ∅

/-- Without such a list there is no index, and the fault does not speak of a position. -/
theorem indexOfTree_of_not_lists (h : ¬∃ records, Lists tree records) :
    ∃ fault, indexOfTree tree = .error fault ∧ ∀ p, fault ≠ .outOfChunk p := by
  cases hget : tree.get? "TileEntities" with
  | none =>
      refine ⟨.missingTag "TileEntities", ?_, fun p => nofun⟩
      simp only [indexOfTree, required, Compound.require, hget]
      rfl
  | some tag =>
      cases hlist : tag.asList? with
      | none =>
          refine ⟨.wrongTagType "TileEntities" .list tag.kind, ?_, fun p => nofun⟩
          simp only [indexOfTree, required, Compound.require, hget, hlist]
          rfl
      | some records =>
          cases tag with
          | list l =>
              cases hlist
              -- The list is there, so one of its elements must be something else.
              have hstray : ∃ tag ∈ records.items, tag.kind ≠ .compound := by
                by_contra hall
                exact h ⟨records, hget,
                  fun tag hmem => by_contra fun hkind => hall ⟨tag, hmem, hkind⟩⟩
              rcases hstray with ⟨stray, hmem, hkind⟩
              rcases indexRecords_of_stray hmem hkind ∅ with ⟨found, hrecords⟩
              refine ⟨.strayRecord found, ?_, fun p => nofun⟩
              simp only [indexOfTree, required, Compound.require, hget, Tag.asList?]
              exact hrecords
          | _ => cases hlist

theorem Sound.yields_tileEntities {index : TileEntityIndex} (sound : Sound tree c)
    (h : indexOfTree tree = .ok index) :
    Yields c.tileEntities (index, { c with index? := some index }) := by
  rcases c with ⟨own, blocks, data, x, z, index?⟩
  cases index? with
  | none =>
      have htree : own = tree := sound.source
      simp only [tileEntities, htree, h, ofExcept_ok]
      exact (yields_pure index).bind ((yields_log _ _).bind (yields_pure _))
  | some made =>
      have hmade : made = index := Except.ok.inj ((sound.index made rfl).symm.trans h)
      subst hmade
      exact yields_pure _

theorem Sound.fails_tileEntities {fault : ChunkError} (sound : Sound tree c)
    (h : indexOfTree tree = .error fault) : Fails c.tileEntities fault := by
  rcases c with ⟨own, blocks, data, x, z, index?⟩
  cases index? with
  | none =>
      have htree : own = tree := sound.source
      simp only [tileEntities, htree, h]
      exact (fails_throw fault).bind _
  | some made => exact absurd ((sound.index made rfl).symm.trans h) nofun

/-! ## Chunks in use -/

/-- A chunk that was read from a tree, and what has become of it in use. -/
inductive Reached (tree : Compound) : Chunk → Prop
  | ofTree {c : Chunk} : ofTree tree = .ok c → Reached tree c
  | tileEntities {c c' : Chunk} {index : TileEntityIndex} {said said' : Array Notice} :
      Reached tree c → c.tileEntities said = .ok (index, c') said' → Reached tree c'
  | block {c c' : Chunk} {p : BlockPos} {cell : Cell} {said said' : Array Notice} :
      Reached tree c → c.block p said = .ok (cell, c') said' → Reached tree c'

theorem required_eq_ok_iff {α : Type} {key : String} {expected : TagType} {read : Tag → Option α}
    {value : α} : required tree key expected read = .ok value ↔ tree.getAs? key read = some value :=
  Outcome.except_mapError_eq_ok_iff.trans Compound.require_eq_ok_iff

/-- A chunk is read if its four fields are there and both arrays have their sizes. -/
theorem ofTree_eq_ok_iff :
    ofTree tree = .ok c ↔ Sound tree c ∧ c.index? = none := by
  constructor
  · intro h
    unfold ofTree at h
    simp only [Outcome.except_bind_eq_ok_iff, required_eq_ok_iff] at h
    rcases h with ⟨blocks, hblocks, data, hdata, x, hx, z, hz, hsizes⟩
    by_cases hvolume : blocks.size = volume
    · by_cases hhalf : data.size = volume / 2
      · simp only [hvolume, hhalf, ne_eq, not_true, if_false] at hsizes
        cases hsizes
        exact ⟨⟨rfl, hblocks, hdata, hx, hz, hvolume, hhalf, nofun⟩, rfl⟩
      · simp [hvolume, hhalf, throw, throwThe, MonadExceptOf.throw, bind, Except.bind] at hsizes
    · simp [hvolume, throw, throwThe, MonadExceptOf.throw, bind, Except.bind] at hsizes
  · rintro ⟨sound, hindex⟩
    rcases c with ⟨own, blocks, data, x, z, index?⟩
    rcases sound with ⟨rfl, hblocks, hdata, hx, hz, hvolume, hhalf, -⟩
    cases hindex
    unfold ofTree
    simp only [Outcome.except_bind_eq_ok_iff, required_eq_ok_iff]
    refine ⟨blocks, hblocks, data, hdata, x, hx, z, hz, ?_⟩
    simp only [hvolume, hhalf, ne_eq, not_true, if_false]
    rfl

/-- Use fills the index and changes nothing else. -/
theorem Sound.tileEntities {c' : Chunk} {index : TileEntityIndex} {said said' : Array Notice}
    (sound : Sound tree c) (h : c.tileEntities said = .ok (index, c') said') : Sound tree c' := by
  cases hindex : indexOfTree tree with
  | error fault => exact absurd h (sound.fails_tileEntities hindex).ne_ok
  | ok made =>
      have hmade := (sound.yields_tileEntities hindex).eq_of_ok h
      cases hmade
      exact { sound with index := fun other hother => by cases hother; exact hindex }

theorem Reached.sound (h : Reached tree c) : Sound tree c := by
  induction h with
  | ofTree hread => exact (ofTree_eq_ok_iff.1 hread).1
  | tileEntities _ hrun ih => exact ih.tileEntities hrun
  | block _ hrun ih =>
      unfold Chunk.block at hrun
      simp only [Outcome.bind_eq_ok_iff, ofExcept_eq_ok_iff, Outcome.pure_apply,
        EStateM.Result.ok.injEq, Prod.mk.injEq] at hrun
      rcases hrun with ⟨id, _, -, data, _, -, ⟨index, used⟩, _, hindex, ⟨-, rfl⟩, -⟩
      exact ih.tileEntities hindex

/-! ## Cells -/

theorem Refuses.fails_block (h : c.Refuses p) : Fails (c.block p) (.outOfChunk p) := by
  simp only [Chunk.block, (block_of_refuses h).1]
  exact (fails_throw _).bind _

theorem Reached.yields_block {records : TagList} (reached : Reached tree c) (h : ¬c.Refuses p)
    (listed : Lists tree records) :
    ∃ id data c', c.blockId p = .ok id ∧ c.blockData p = .ok data ∧ Reached tree c' ∧
      Yields (c.block p)
        (⟨id, data, records.compounds.reverse.find? fun record => recordPosition record == p⟩,
          c') := by
  rcases reached.sound.block_of_not_refuses h with ⟨id, data, hid, hdata⟩
  have hindex := reached.sound.yields_tileEntities (indexOfTree_of_lists listed)
  have hblock : Yields (c.block p)
      (⟨id, data, (indexed records.compounds)[p]?⟩,
        { c with index? := some (indexed records.compounds) }) := by
    simp only [Chunk.block, hid, hdata, ofExcept_ok]
    exact (yields_pure id).bind ((yields_pure data).bind (hindex.bind (yields_pure _)))
  rcases hblock #[] with ⟨said, hrun⟩
  exact ⟨id, data, _, hid, hdata, reached.block hrun, getElem?_indexed records.compounds p ▸ hblock⟩

theorem Reached.fails_block (reached : Reached tree c) (h : ¬c.Refuses p)
    (unlisted : ¬∃ records, Lists tree records) :
    ∃ fault, Fails (c.block p) fault ∧ fault ≠ .outOfChunk p := by
  rcases reached.sound.block_of_not_refuses h with ⟨id, data, hid, hdata⟩
  rcases indexOfTree_of_not_lists unlisted with ⟨fault, hindex, hother⟩
  refine ⟨fault, ?_, hother p⟩
  simp only [Chunk.block, hid, hdata, ofExcept_ok, pure_bind]
  exact (reached.sound.fails_tileEntities hindex).bind _

/-- A cell is refused for its position only where the position is refused. -/
theorem Reached.fails_block_iff (reached : Reached tree c) :
    Fails (c.block p) (.outOfChunk p) ↔ c.Refuses p := by
  constructor
  · intro hfails
    by_contra hkept
    rcases hfails #[] with ⟨said, hrun⟩
    by_cases hlisted : ∃ records, Lists tree records
    · rcases hlisted with ⟨records, hlists⟩
      rcases reached.yields_block hkept hlists with ⟨id, data, c', -, -, -, hyields⟩
      exact hyields.ne_error hrun
    · rcases reached.fails_block hkept hlisted with ⟨fault, hfault, hother⟩
      exact hother (hfault.eq_of_error hrun).symm
  · exact Refuses.fails_block

/-- At a position that is not refused, the cell fails for want of a list of tile entities only. -/
theorem Reached.fails_block_iff_unlisted (reached : Reached tree c) (h : ¬c.Refuses p) :
    (∃ fault, Fails (c.block p) fault) ↔ ¬∃ records, Lists tree records := by
  constructor
  · rintro ⟨fault, hfails⟩ ⟨records, hlists⟩
    rcases reached.yields_block h hlists with ⟨id, data, c', -, -, -, hyields⟩
    rcases hyields #[] with ⟨said, hrun⟩
    exact hfails.ne_ok hrun
  · intro hunlisted
    rcases reached.fails_block h hunlisted with ⟨fault, hfails, -⟩
    exact ⟨fault, hfails⟩

/-- A chunk answers for the positions of its own columns and refuses the others, except for the air
above. -/
theorem Reached.answers_own_columns (reached : Reached tree c) :
    (tree.getByteArray? "Blocks" = some c.blocks ∧ tree.getByteArray? "Data" = some c.data ∧
      tree.getInt? "xPos" = some c.x ∧ tree.getInt? "zPos" = some c.z) ∧
    (∀ p, (c.blockId p = .error (.outOfChunk p) ↔ c.Refuses p) ∧
      (c.blockData p = .error (.outOfChunk p) ↔ c.Refuses p) ∧
      (Fails (c.block p) (.outOfChunk p) ↔ c.Refuses p)) ∧
    (∀ p, c.Holds p → c.place? p = .ok (some (blockNumber p)) ∧ blockNumber p < 32768 ∧
      ∃ byte packed, c.blocks[blockNumber p]? = some byte ∧
        c.data[blockNumber p / 2]? = some packed ∧ c.blockId p = .ok byte.toUInt16 ∧
        c.blockData p =
          .ok (if blockNumber p % 2 = 0 then packed &&& 0x0F else packed >>> 4).toUInt16) ∧
    (∀ p q, c.Holds p → c.Holds q → blockNumber p = blockNumber q → p = q) ∧
    (c.InWorld → ∀ i < 32768, ∃ p, c.Holds p ∧ blockNumber p = i) ∧
    (∀ p, 128 ≤ p.y.toInt → c.blockId p = .ok 0 ∧ c.blockData p = .ok 0) ∧
    (∀ p, ¬c.Refuses p →
      ((∃ fault, Fails (c.block p) fault) ↔ ¬∃ records, Lists tree records) ∧
      ∀ records, Lists tree records →
        ∃ id data c', c.blockId p = .ok id ∧ c.blockData p = .ok data ∧ Reached tree c' ∧
          Yields (c.block p)
            (⟨id, data, records.compounds.reverse.find? fun record => recordPosition record == p⟩,
              c')) ∧
    (∀ p, 0 ≤ p.y.toInt → coordinates p = (c.x, c.z) →
      c.InWorld ∧ ¬c.Refuses p ∧ ∃ id data, c.blockId p = .ok id ∧ c.blockData p = .ok data) := by
  have sound := reached.sound
  refine ⟨⟨sound.blocks, sound.data, sound.x, sound.z⟩, ?refused, ?held, ?injective, ?surjective,
    ?above, ?cells, ?rounded⟩
  case refused =>
    intro p
    exact ⟨sound.refused_iff.1, sound.refused_iff.2, reached.fails_block_iff⟩
  case held =>
    intro p h
    exact ⟨h.place?, h.blockNumber_lt, sound.block_of_holds h⟩
  case injective =>
    intro p q hp hq same
    exact hp.eq_of_blockNumber_eq hq same
  case surjective =>
    intro h i hi
    exact h.exists_holds hi
  case above =>
    intro p h
    exact block_of_above h
  case cells =>
    intro p h
    exact ⟨reached.fails_block_iff_unlisted h, fun records hlists => reached.yields_block h hlists⟩
  case rounded =>
    intro p hbottom hcolumns
    have hkept := not_refuses_of_coordinates hbottom hcolumns
    exact ⟨inWorld_of_coordinates hcolumns, hkept, sound.block_of_not_refuses hkept⟩

/-- A sign in the corner of a chunk. -/
def cornerSign : Compound :=
  ⟨[("id", Tag.string "Sign"), ("x", Tag.int (-16)), ("y", Tag.int 3), ("z", Tag.int 32)]⟩

/-- A chunk of one sort of blocks that lies west of the middle of the world. -/
def signTree : Compound :=
  ⟨[("xPos", Tag.int (-1)), ("zPos", Tag.int 2), ("Blocks", Tag.byteArray (Array.replicate 32768 7)),
    ("Data", Tag.byteArray (Array.replicate 16384 0x21)),
    ("TileEntities", Tag.list (TagList.ofCompounds [cornerSign]))]⟩

def signChunk : Chunk where
  tree := signTree
  blocks := Array.replicate 32768 7
  data := Array.replicate 16384 0x21
  x := -1
  z := 2

theorem reached_signChunk : Reached signTree signChunk :=
  .ofTree (ofTree_eq_ok_iff.2
    ⟨⟨rfl, rfl, rfl, rfl, rfl, Array.size_replicate, Array.size_replicate, nofun⟩, rfl⟩)

theorem answers_own_columns_signChunk :
    Reached signTree signChunk ∧ Fails (signChunk.block ⟨0, 3, 32⟩) (.outOfChunk ⟨0, 3, 32⟩) ∧
      ∃ used, Yields (signChunk.block ⟨-16, 3, 32⟩) (⟨7, 2, some cornerSign⟩, used) := by
  rcases reached_signChunk.answers_own_columns with ⟨-, hrefused, hheld, -, -, -, hcell, -⟩
  have hbeside : signChunk.Refuses ⟨0, 3, 32⟩ := .inr ⟨by decide, by decide⟩
  have hcorner : signChunk.Holds ⟨-16, 3, 32⟩ := ⟨by decide, by decide, rfl⟩
  have hkept : ¬signChunk.Refuses ⟨-16, 3, 32⟩ :=
    not_refuses_of_coordinates hcorner.bottom hcorner.columns
  have hlists : Lists signTree (TagList.ofCompounds [cornerSign]) :=
    ⟨rfl, by simp [TagList.ofCompounds, Tag.kind]⟩
  rcases hheld _ hcorner with ⟨-, -, byte, packed, hbyte, hpacked, hbyteId, hnibble⟩
  rcases (hcell _ hkept).2 _ hlists with ⟨id, data, used, hid, hdata, -, hyields⟩
  -- The corner has number three, so that its data value is in the high half of a byte.
  have hnumber : blockNumber ⟨-16, 3, 32⟩ = 3 := by decide
  have hseven : byte = 7 := by simpa [hnumber, signChunk] using hbyte.symm
  have hpair : packed = 0x21 := by simpa [hnumber, signChunk] using hpacked.symm
  subst hseven hpair
  rw [hnumber] at hnibble
  cases hid.symm.trans hbyteId
  cases hdata.symm.trans hnibble
  exact ⟨reached_signChunk, (hrefused _).2.2.2 hbeside, used, hyields⟩

end Chunk

end VoxelSchematic
