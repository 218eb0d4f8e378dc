import VoxelSchematic.Proofs.Tag.Settled
import VoxelSchematic.Proofs.Wire.Transcript

/-!
# Decoding settles a transcript

* `decode_eq_ok_iff`: decoding gives the settled form of the transcript, and takes the same bytes.
* `Spelled.settled`: what the wire carried, it carries again after settling.
* `length_namedWord_settled_lt`: each repeated name makes the stream longer than it need be.
-/

namespace VoxelSchematic.Wire

open Reader

/-! ## Two readers in step -/

section

variable {α : Type} (f : α → α)

theorem manyFrom_map (item : Reader α) (n : Nat) (done : Array α) :
    manyFrom (f <$> item) n (done.map f) = Array.map f <$> manyFrom item n done := by
  induction n generalizing done with
  | zero => simp [manyFrom]
  | succ n ih => simp [manyFrom, ← ih]

theorem many_map (item : Reader α) (n : Nat) :
    many (f <$> item) n = Array.map f <$> many item n := by
  simpa [many] using manyFrom_map f item n #[]

end

/-- A compound with its values and its names settled. -/
def settledCompound (fields : Compound) : Compound := .ofList (Tag.settledFields fields.entries)

theorem settledCompound_append (fields : Compound) (key : String) (tag : Tag) :
    settledCompound (fields.append key tag) = (settledCompound fields).insert key tag.settled := by
  simp [settledCompound, OrderedMap.append, Tag.settledFields_eq_map,
    OrderedMap.ofList_append_singleton]

/-- A list with its elements settled. -/
def settledList (l : TagList) : TagList := ⟨l.element, l.items.map Tag.settled⟩

theorem list_map (value : TagType → Reader Tag) :
    list (fun k => Tag.settled <$> value k) = settledList <$> list value := by
  simp only [list, map_bind]
  -- Both readers take the same header, so only the cases after it have to be compared.
  congr 1
  funext k
  congr 1
  funext raw
  by_cases hneg : raw < 0
  · simp only [hneg, if_true]
    rfl
  · by_cases hend : k = .terminator ∧ 0 < raw
    · rw [if_neg hneg, if_pos hend, if_neg hneg, if_pos hend]
      rfl
    · simp [hneg, hend, many_map, settledList]

theorem fieldsFrom_map (value : TagType → Reader Tag) (budget : Nat) (done : Compound) :
    fieldsFrom OrderedMap.insert (fun k => Tag.settled <$> value k) budget (settledCompound done) =
      settledCompound <$> fieldsFrom OrderedMap.append value budget done := by
  -- The invariant is that the one accumulator is the settled form of the other.
  induction budget generalizing done with
  | zero => rfl
  | succ budget ih =>
      simp only [fieldsFrom, map_bind]
      congr 1
      funext k
      by_cases hk : k = .terminator
      · simp [hk]
      · simp [hk, ← settledCompound_append, ih]

theorem settled_list (l : TagList) : (Tag.list l).settled = .list (settledList l) :=
  Tag.settled_list

theorem settled_compound (fields : Compound) :
    (Tag.compound fields).settled = .compound (settledCompound fields) := rfl

/-- Values are read alike, whichever way fields are joined. -/
theorem payload_map (budget levels : Nat) (k : TagType) :
    payload OrderedMap.insert budget levels k =
      Tag.settled <$> payload OrderedMap.append budget levels k := by
  induction levels generalizing k with
  | zero => cases k <;> simp [payload, Tag.settled] <;> rfl
  | succ levels ih =>
      have hvalue : payload OrderedMap.insert budget levels =
          fun k => Tag.settled <$> payload OrderedMap.append budget levels k := funext ih
      have hempty : settledCompound .empty = .empty := rfl
      cases k with
      | list => simp [payload, hvalue, list_map, settled_list]
      | compound =>
          have hfields := fieldsFrom_map (payload OrderedMap.append budget levels) budget .empty
          rw [hempty] at hfields
          simp [payload, hvalue, hfields, settled_compound]
      | _ => simp [payload, Tag.settled]

theorem named_map (budget : Nat) :
    named OrderedMap.insert budget =
      (fun read => (read.1, read.2.settled)) <$> named OrderedMap.append budget := by
  simp only [named, map_bind]
  congr 1
  funext k
  by_cases hk : k = .terminator
  · simp [hk, Tag.settled]
  · simp [hk, payload_map]

/-- Decoding gives the settled form of a transcript, and leaves what the transcript leaves. -/
theorem decode_eq_ok_iff {input rest : List UInt8} {name : String} {root : Tag} :
    decode input = .ok (name, root) rest ↔
      ∃ raw, transcribe input = .ok (name, raw) rest ∧ raw.settled = root := by
  rw [decode, decodeWith, named_map, Outcome.map_eq_ok_iff]
  constructor
  · intro hread
    rcases hread with ⟨⟨key, raw⟩, hraw, h⟩
    rcases Prod.mk.injEq .. ▸ h with ⟨rfl, rfl⟩
    exact ⟨raw, hraw, rfl⟩
  · intro hgiven
    rcases hgiven with ⟨raw, hraw, rfl⟩
    exact ⟨(name, raw), hraw, rfl⟩

/-! ## What settling keeps -/

theorem Legible.settled_list {element : TagType} {items : List Tag}
    (h : Legible (.list ⟨element, items⟩)) : Legible (.list ⟨element, items.map Tag.settled⟩) := by
  rcases h with ⟨hcount, hempty, huniform⟩
  refine ⟨by simpa using hcount, fun helement => ?_, fun tag ht => ?_⟩
  · exact List.map_eq_nil_iff.2 (hempty helement)
  rcases List.mem_map.1 ht with ⟨raw, hraw, rfl⟩
  rw [Tag.kind_settled]
  exact huniform raw hraw

theorem everywhere_legible_settled {tag : Tag} (h : tag.Everywhere Legible) :
    tag.settled.Everywhere Legible := by
  induction tag using Tag.byLayers with
  | layer tag ih =>
      cases tag with
      | list l =>
          rcases l with ⟨element, items⟩
          rcases Tag.everywhere_list.1 h with ⟨here, below⟩
          rw [Tag.settled_list]
          refine Tag.everywhere_list.2 ⟨here.settled_list, fun tag ht => ?_⟩
          rcases List.mem_map.1 ht with ⟨raw, hraw, rfl⟩
          exact ih raw hraw (below raw hraw)
      | compound fields =>
          rcases fields with ⟨entries⟩
          rcases Tag.everywhere_compound.1 h with ⟨here, below⟩
          rw [Tag.settled_compound]
          -- Settling drops fields but makes none, so every field left comes from one that was legible.
          refine Tag.everywhere_compound.2 ⟨fun entry he => ?_, fun entry he => ?_⟩
          · rcases List.mem_map.1 (OrderedMap.mem_of_mem_ofList he) with ⟨raw, hraw, rfl⟩
            rw [Tag.kind_settled]
            exact here raw hraw
          · rcases List.mem_map.1 (OrderedMap.mem_of_mem_ofList he) with ⟨raw, hraw, rfl⟩
            exact ih raw.2 (List.mem_map_of_mem hraw) (below raw hraw)
      | _ => exact h

/-- What the wire has carried, it carries again after settling. -/
theorem Spelled.settled {name : String} {root : Tag} (h : Spelled name root) :
    Spelled name root.settled where
  legible := everywhere_legible_settled h.legible
  depth_le := Tag.depth_settled_le h.depth_le
  name_fits := by
    rw [Tag.kind_settled]
    exact h.name_fits
  name_eq := by
    rw [Tag.kind_settled]
    exact h.name_eq

/-! ## What settling saves -/

theorem length_word_list (element : TagType) (items : List Tag) :
    (Tag.list ⟨element, items⟩).word.length =
      5 + (items.map fun tag => tag.word.length).sum := by
  rw [word_list]
  simp [BigEndian.length_encode, List.length_flatMap]
  omega

theorem length_word_compound (entries : List (String × Tag)) :
    (Tag.compound ⟨entries⟩).word.length =
      (entries.map fun entry => (namedWord entry.1 entry.2).length).sum + 1 := by
  rw [word_compound]
  simp [List.length_flatMap]

theorem length_namedWord_pos (key : String) (tag : Tag) : 0 < (namedWord key tag).length := by
  simp [namedWord, Tag.namedPieces, Piece.bytes]

/-- What a name costs does not depend on the value behind it. -/
theorem length_namedWord (key : String) (tag : Tag) :
    (namedWord key tag).length =
      1 + ((Piece.name tag.kind key).flatMap Piece.bytes).length + tag.word.length := by
  simp [namedWord, Tag.namedPieces, Piece.bytes, Tag.word]
  omega

/-- What a field costs, its name included. -/
def fieldCost (entry : String × Tag) : Nat := (namedWord entry.1 entry.2).length

theorem fieldCost_pos (entry : String × Tag) : 0 < fieldCost entry :=
  length_namedWord_pos entry.1 entry.2

theorem fieldCost_settled (entry : String × Tag) :
    fieldCost (entry.1, entry.2.settled) + entry.2.word.length =
      fieldCost entry + entry.2.settled.word.length := by
  simp only [fieldCost, length_namedWord, Tag.kind_settled]
  omega

/-- A repeated name, anywhere in a tree, costs bytes that settling saves. -/
theorem length_word_settled_lt {tag : Tag} (h : ¬tag.Everywhere Tag.DistinctNode) :
    tag.settled.word.length < tag.word.length := by
  induction tag using Tag.byLayers with
  | layer tag ih =>
      -- A child that repeats no name is settled already, so no child grows.
      have hle : ∀ child ∈ tag.children, child.settled.word.length ≤ child.word.length := by
        intro child hchild
        by_cases hdistinct : child.Everywhere Tag.DistinctNode
        · rw [Tag.settled_of_distinct hdistinct]
        · exact Nat.le_of_lt (ih child hchild hdistinct)
      cases tag with
      | list l =>
          rcases l with ⟨element, items⟩
          have hsome : ∃ item ∈ items, ¬item.Everywhere Tag.DistinctNode := by
            by_contra hnone
            push Not at hnone
            exact h (Tag.everywhere_list.2 ⟨trivial, hnone⟩)
          rcases hsome with ⟨item, hitem, hrepeat⟩
          have hsum : (items.map fun tag => tag.settled.word.length).sum <
              (items.map fun tag => tag.word.length).sum :=
            List.sum_lt_sum _ _ hle ⟨item, hitem, ih item hitem hrepeat⟩
          rw [Tag.settled_list, length_word_list, length_word_list, List.map_map]
          exact Nat.add_lt_add_left hsum 5
      | compound fields =>
          rcases fields with ⟨entries⟩
          have hcost : ∀ entry ∈ entries, fieldCost (entry.1, entry.2.settled) ≤ fieldCost entry := by
            intro entry hentry
            have hchild := hle entry.2 (List.mem_map_of_mem hentry)
            have hcompare := fieldCost_settled entry
            omega
          rw [Tag.settled_compound, length_word_compound, length_word_compound]
          refine Nat.add_lt_add_right ?_ 1
          have hall : ((entries.map fun entry => (entry.1, entry.2.settled)).map fieldCost).sum ≤
              (entries.map fieldCost).sum := by
            rw [List.map_map]
            exact List.sum_le_sum hcost
          by_cases hnodup : (entries.map Prod.fst).Nodup
          · -- No name comes twice here, so some value repeats one.
            have hsome : ∃ entry ∈ entries, ¬entry.2.Everywhere Tag.DistinctNode := by
              by_contra hnone
              push Not at hnone
              exact h (Tag.everywhere_compound.2 ⟨hnodup, hnone⟩)
            rcases hsome with ⟨entry, hentry, hrepeat⟩
            have hchild := ih entry.2 (List.mem_map_of_mem hentry) hrepeat
            have hcompare := fieldCost_settled entry
            have hkeys : ((entries.map fun entry => (entry.1, entry.2.settled)).map Prod.fst).Nodup := by
              rw [Tag.map_fst_settledFields]
              exact hnodup
            rw [OrderedMap.ofList_of_nodup hkeys, List.map_map]
            have hless : fieldCost (entry.1, entry.2.settled) < fieldCost entry := by omega
            exact List.sum_lt_sum _ _ hcost ⟨entry, hentry, hless⟩
          · -- A name comes twice: the field that it overrides is gone.
            have hkeys : ¬((entries.map fun entry => (entry.1, entry.2.settled)).map Prod.fst).Nodup := by
              rw [Tag.map_fst_settledFields]
              exact hnodup
            exact Nat.lt_of_lt_of_le (OrderedMap.total_ofList_lt fieldCost_pos hkeys) hall
      | _ => exact absurd ((Tag.everywhere_leaf rfl).2 trivial) h

theorem length_namedWord_settled_lt {key : String} {tag : Tag}
    (h : ¬tag.Everywhere Tag.DistinctNode) :
    (namedWord key tag.settled).length < (namedWord key tag).length := by
  have hword := length_word_settled_lt h
  rw [length_namedWord, length_namedWord, Tag.kind_settled]
  omega

end VoxelSchematic.Wire
