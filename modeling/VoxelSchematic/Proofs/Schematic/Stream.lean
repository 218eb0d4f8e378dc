import VoxelSchematic.Gzip.Stored
import VoxelSchematic.Proofs.Schematic.Contents
import VoxelSchematic.Schematic.Stream

/-!
# Schematics as bytes

Between a clipboard and its bytes stand the writer of schematics and the wire format.
`Clipboard.ofStream_toStream` says what the wire format adds: it refuses texts that are too long
when it writes, and trees that are too deep when it reads. Of the trees that it can carry, whoever
reads the bytes learns what the schematic itself says.

`Clipboard.FieldValue` lists what can stand in a field of a schematic that was written. Whatever the
wire format demands of the schematic, it demands of the records in it.
-/

namespace VoxelSchematic

open Schematic Telling Wire

/-! ## Reports sent to the log -/

namespace Telling

variable {ε α : Type} {work : Telling ε α} {v : α} {fault : ε}

theorem Yields.logged (h : Yields work v) : Yields work.logged v := by
  intro said
  rcases h #[] with ⟨mid, hwork⟩
  exact ⟨said ++ mid.toList.map fun notice => Notice.log notice.toLog,
    by simp only [Telling.logged, hear, hwork]; rfl⟩

theorem Fails.logged (h : Fails work fault) : Fails work.logged fault := by
  intro said
  rcases h #[] with ⟨mid, hwork⟩
  exact ⟨said ++ mid.toList.map fun notice => Notice.log notice.toLog,
    by simp only [Telling.logged, hear, hwork]; rfl⟩

end Telling

namespace Clipboard

variable {c : Clipboard} {w : Registry}

/-! ## Writing and reading bytes -/

/-- Only a side that is too long keeps a clipboard from being a schematic. -/
theorem toFile_cases (distinct : c.Distinct) (hw : w.Built) :
    (∃ axis size, longSide? c.region = some (axis, size) ∧ maxSide < size ∧
        Fails (c.toFile w) (.sideTooLong axis size)) ∨
      ∃ t, Yields (c.toFile w) ⟨rootName, .compound (c.fields t)⟩ := by
  cases hsides : longSide? c.region with
  | none =>
      rcases yields_toFile distinct hw (longSide?_eq_none_iff.1 hsides) with ⟨t, hwritten, -⟩
      exact .inr ⟨t, hwritten⟩
  | some side =>
      rcases side with ⟨axis, size⟩
      have hlong := List.find?_some hsides
      refine .inl ⟨axis, size, rfl, of_decide_eq_true hlong, ?_⟩
      unfold toFile
      rw [hsides]
      exact (fails_throw _).bind _

theorem yields_toStream_of_toFile [Gzip.Compressor] {file : TagFile}
    (h : Yields (c.toFile w) file) :
    Yields (toStream .plain w c) (image file.name file.root) := h.logged.bind (yields_pure _)

/-- A clipboard with short sides and short texts is written in full. -/
theorem yields_toStream [Gzip.Compressor] (hw : w.Built) (built : c.Built)
    (small : c.region.Small)
    (volume : c.region.volume < Reader.countLimit) (entities : c.entities.size < Reader.countLimit)
    (records : ∀ record ∈ c.records, Storable (.compound record))
    (texts : ∀ record ∈ c.records, Tag.Everywhere (Tag.TextsWithin maxTextBytes) (.compound record))
    (names : ∀ kind id name, w.name? kind id = some name → name.utf8ByteSize ≤ maxTextBytes) :
    ∃ bytes, Yields (toStream .plain w c) ⟨bytes, none⟩ := by
  rcases yields_toFile built.distinct hw small with ⟨t, hwritten, hrecords⟩
  have hnames : ∀ kind, ∀ pair ∈ (t.side kind).pairs, pair.1.utf8ByteSize ≤ maxTextBytes := by
    intro kind pair hpair
    exact names kind pair.2 pair.1 ((hrecords kind).mem_pairs_iff.1 hpair).1
  have hterminators := (storable_fields t volume entities records).holdsNoTerminator
  have hroot : rootName.utf8ByteSize ≤ maxTextBytes := by decide
  have hfits : ∀ p ∈ Tag.namedPieces rootName (.compound (c.fields t)), p.Fits := by
    apply fits_namedPieces_iff.2
    exact ⟨fun _ => hroot, (fits_pieces_iff hterminators).2 (texts_fields texts hnames)⟩
  have hstream := yields_toStream_of_toFile hwritten
  have himage : image rootName (.compound (c.fields t)) = ⟨_, none⟩ := image_eq_iff.2 ⟨hfits, rfl⟩
  rw [himage] at hstream
  exact ⟨_, hstream⟩

section

variable {r : Registry} {t : RemapTable} {bytes : Array UInt8}

theorem ofStream_of_decode {name : String} {root : Tag} {rest : List UInt8}
    (h : decode bytes.toList = .ok (name, root) rest) :
    ofStream .plain r bytes = (TagFile.readClipboard ⟨name, root⟩ r).logged := by
  have hfile : TagFile.ofPacked .plain bytes = .ok ⟨name, root⟩ := congrArg TagFile.outcome h
  rw [ofStream, hfile]
  rfl

theorem fails_ofStream (h : Reader.Refuses .depthLimitExceeded decode bytes.toList) :
    Fails (ofStream .plain r bytes) (.format (.stream .depthLimitExceeded)) := by
  rcases h with ⟨left, hdecode⟩
  have hfile : TagFile.ofPacked .plain bytes = .error .depthLimitExceeded :=
    congrArg TagFile.outcome hdecode
  rw [ofStream, hfile]
  exact (fails_throw _).bind _

/-- The bytes of a schematic are read as the schematic, unless some record is too deep. -/
theorem ofStream_image (built : c.Built) (hstorable : Storable (.compound (c.fields t)))
    (written : image rootName (.compound (c.fields t)) = ⟨bytes, none⟩) (rest : Array UInt8) :
    ((∀ record ∈ c.records, Tag.depth (.compound record) ≤ 510) →
        ofStream .plain r (bytes ++ rest) =
          (TagFile.readClipboard ⟨rootName, .compound (c.fields t)⟩ r).logged) ∧
      ((∃ record ∈ c.records, 511 ≤ Tag.depth (.compound record)) →
        Fails (ofStream .plain r (bytes ++ rest)) (.format (.stream .depthLimitExceeded))) := by
  have hread := hstorable.decode_image (built_fields t built).regular written rest.toList
  rw [← Array.toList_append] at hread
  constructor
  · intro hshallow
    exact ofStream_of_decode (hread.1 (depth_fields_le_iff.2 hshallow))
  · intro hdeep
    rcases hdeep with ⟨record, hrecord, hdeep⟩
    have hdepth : maxDepth < Tag.depth (.compound (c.fields t)) := by
      apply Nat.lt_of_not_le
      intro hle
      exact absurd (depth_fields_le_iff.1 hle record hrecord) (Nat.not_le.2 hdeep)
    exact fails_ofStream (hread.2 hdepth)

end

/-- Between a schematic and its bytes stands nothing but the wire format: reading the bytes, with
whatever follows them, is reading the schematic if its records have at most 510 levels, and fails if
one has more. Writing fails for a side or a text that is too long, and for no other reason. -/
theorem ofStream_toStream [Gzip.Compressor] (r : Registry) (hw : w.Built) (built : c.Built)
    (volume : c.region.volume < Reader.countLimit) (entities : c.entities.size < Reader.countLimit)
    (records : ∀ record ∈ c.records, Storable (.compound record)) :
    (∀ said fault said', toStream .plain w c said = .error fault said' →
        ∃ axis size, longSide? c.region = some (axis, size) ∧ maxSide < size ∧
          fault = .sideTooLong axis size) ∧
      (∀ said bytes fault said', toStream .plain w c said = .ok ⟨bytes, some fault⟩ said' →
        ∃ file s, Yields (c.toFile w) file ∧ Piece.text s ∈ file.root.namedPieces file.name ∧
          maxTextBytes < s.utf8ByteSize ∧ fault = .stringTooLong s.utf8ByteSize) ∧
      ∀ said bytes said', toStream .plain w c said = .ok ⟨bytes, none⟩ said' →
        ∃ file, Yields (c.toFile w) file ∧
          ((∀ record ∈ c.records, Tag.depth (.compound record) ≤ 510) → ∀ rest,
            ofStream .plain r (bytes ++ rest) = (file.readClipboard r).logged) ∧
          ((∃ record ∈ c.records, 511 ≤ Tag.depth (.compound record)) → ∀ rest,
            Fails (ofStream .plain r (bytes ++ rest)) (.format (.stream .depthLimitExceeded))) := by
  -- Either there is nothing to put into bytes, or it is put into bytes up to a text that is too long.
  rcases toFile_cases built.distinct hw with ⟨axis, size, hside, hlong, hfails⟩ | ⟨t, hwritten⟩
  · have hstream : Fails (toStream .plain w c) (.sideTooLong axis size) := hfails.logged.bind _
    exact ⟨fun said fault said' hrun => ⟨axis, size, hside, hlong, hstream.eq_of_error hrun⟩,
      fun said bytes fault said' hrun => absurd hrun hstream.ne_ok,
      fun said bytes said' hrun => absurd hrun hstream.ne_ok⟩
  · have hstream := yields_toStream_of_toFile hwritten
    have hstorable := storable_fields t volume entities records
    refine ⟨fun said fault said' hrun => absurd hrun hstream.ne_error,
      fun said bytes fault said' hrun => ?_, fun said bytes said' hrun => ?_⟩
    · rcases fault_of_image (hstream.eq_of_ok hrun).symm with ⟨s, hs, hlong, hfault⟩
      exact ⟨_, s, hwritten, hs, hlong, hfault⟩
    · have hread := ofStream_image (r := r) built hstorable (hstream.eq_of_ok hrun).symm
      exact ⟨_, hwritten, fun hshallow rest => (hread rest).1 hshallow,
        fun hdeep rest => (hread rest).2 hdeep⟩

/-! ## At the limit -/

/-- Lists inside lists, the innermost without elements. -/
def nested : Nat → Tag
  | 0 => .list ⟨.terminator, []⟩
  | n + 1 => .list ⟨.list, [nested n]⟩

theorem kind_nested (n : Nat) : (nested n).kind = .list := by
  cases n with
  | zero => rfl
  | succ n => rfl

theorem depth_nested (n : Nat) : (nested n).depth = n + 1 := by
  induction n with
  | zero => rfl
  | succ n ih => simp [nested, Tag.depth, Tag.depthOfItems, ih]

theorem everywhere_nested {p : Tag → Prop} (hinner : p (.list ⟨.terminator, []⟩))
    (houter : ∀ n, p (.list ⟨.list, [nested n]⟩)) (n : Nat) : (nested n).Everywhere p := by
  induction n with
  | zero => exact Tag.everywhere_list.2 ⟨hinner, fun tag htag => absurd htag List.not_mem_nil⟩
  | succ n ih =>
      refine Tag.everywhere_list.2 ⟨houter n, fun tag htag => ?_⟩
      rw [List.mem_singleton.1 htag]
      exact ih

/-- A chest with nested lists in it. -/
def nestedClipboard (n : Nat) : Clipboard where
  region := ⟨.zero, 1, 1, 1⟩
  origin := .zero
  cells := #[⟨54, 0, some ⟨[("id", .string "Chest"), ("Items", nested n)]⟩⟩]
  size_cells := rfl

/-- The record of the chest. -/
def nestedRecord (n : Nat) : Compound :=
  ⟨[("id", .string "Chest"), ("Items", nested n), ("x", .int 0), ("y", .int 0), ("z", .int 0)]⟩

theorem records_nestedClipboard (n : Nat) : (nestedClipboard n).records = [nestedRecord n] := by
  have hrecord : tileEntityRecord (Region.relativePosition ⟨.zero, 1, 1, 1⟩ 0)
      ⟨[("id", .string "Chest"), ("Items", nested n)]⟩ = nestedRecord n := rfl
  rw [← hrecord]
  rfl

theorem forall_mem_records_nestedClipboard {n : Nat} {p : Compound → Prop} :
    (∀ record ∈ (nestedClipboard n).records, p record) ↔ p (nestedRecord n) := by
  simp [records_nestedClipboard]

theorem built_nestedClipboard (n : Nat) : (nestedClipboard n).Built := by
  have hnested : (nested n).Built := by
    have huniform : ∀ m, Tag.UniformNode (.list ⟨.list, [nested m]⟩) := by
      intro m tag htag
      rw [List.mem_singleton.1 htag]
      exact kind_nested m
    exact Tag.built_iff_regular.2 ⟨everywhere_nested nofun huniform n,
      everywhere_nested trivial (fun _ => trivial) n⟩
  have htree : Tag.Built (.compound ⟨[("id", .string "Chest"), ("Items", nested n)]⟩) :=
    (Tag.Built.empty.insert "id" (built_string "Chest")).insert "Items" hnested
  refine ⟨fun cell hcell tree htree' => ?_, fun e he => absurd he (Array.not_mem_empty e)⟩
  simp only [nestedClipboard, List.mem_toArray, List.mem_singleton] at hcell
  subst hcell
  cases htree'
  exact htree

theorem storable_nestedRecord (n : Nat) : Storable (.compound (nestedRecord n)) := by
  have hone : 1 < Reader.countLimit := by decide
  have hleaf : ∀ tag : Tag, tag.kind ≠ .list → tag.kind ≠ .compound → tag.count = 0 → Storable tag :=
    fun tag hlist hcompound hcount =>
      storable_leaf hlist hcompound (hcount ▸ Reader.countLimit_pos)
  have hnested : Storable (nested n) :=
    ⟨everywhere_nested trivial (fun _ => trivial) n, everywhere_nested (fun _ => rfl) (fun _ => nofun) n,
      everywhere_nested Reader.countLimit_pos (fun _ => hone) n⟩
  have hkind : (nested n).kind ≠ .terminator := by
    rw [kind_nested]
    nofun
  apply storable_compound
  · simp only [List.forall_mem_cons, List.not_mem_nil, IsEmpty.forall_iff, implies_true, and_true]
    exact ⟨nofun, hkind, nofun, nofun, nofun⟩
  · simp only [List.forall_mem_cons, List.not_mem_nil, IsEmpty.forall_iff, implies_true, and_true]
    exact ⟨hleaf _ nofun nofun rfl, hnested, hleaf _ nofun nofun rfl, hleaf _ nofun nofun rfl,
      hleaf _ nofun nofun rfl⟩

theorem depth_nestedRecord (n : Nat) : Tag.depth (.compound (nestedRecord n)) = n + 2 := by
  simp [nestedRecord, Tag.depth, Tag.depthOfFields, depth_nested]

theorem texts_nestedRecord (n : Nat) :
    Tag.Everywhere (Tag.TextsWithin maxTextBytes) (.compound (nestedRecord n)) := by
  have hkeys : ∀ key ∈ ["id", "Items", "x", "y", "z"], key.utf8ByteSize ≤ maxTextBytes := by decide
  have hname : Tag.TextsWithin maxTextBytes (.string "Chest") := by
    show "Chest".utf8ByteSize ≤ maxTextBytes
    decide
  have hint : ∀ v, Tag.Everywhere (Tag.TextsWithin maxTextBytes) (.int v) :=
    fun v => (Tag.everywhere_leaf rfl).2 trivial
  refine Tag.everywhere_compound.2 ⟨hkeys, ?_⟩
  simp only [List.forall_mem_cons, List.not_mem_nil, IsEmpty.forall_iff, implies_true, and_true]
  exact ⟨(Tag.everywhere_leaf rfl).2 hname, everywhere_nested trivial (fun _ => trivial) n, hint 0,
    hint 0, hint 0⟩

theorem storable_records_nestedClipboard (n : Nat) :
    ∀ record ∈ (nestedClipboard n).records, Storable (.compound record) :=
  forall_mem_records_nestedClipboard.2 (storable_nestedRecord n)

theorem yields_toStream_nestedClipboard (n : Nat) :
    ∃ bytes, Yields (toStream .plain .empty (nestedClipboard n)) ⟨bytes, none⟩ := by
  have hsmall : Region.Small ⟨.zero, 1, 1, 1⟩ := by decide
  have hvolume : Region.volume ⟨.zero, 1, 1, 1⟩ < Reader.countLimit := by decide
  have hnames : ∀ kind id name, Registry.empty.name? kind id = some name →
      name.utf8ByteSize ≤ maxTextBytes := by
    intro kind id name hname
    cases kind with
    | block => cases hname
    | item => cases hname
  exact yields_toStream .empty (built_nestedClipboard n) hsmall hvolume Reader.countLimit_pos
    (storable_records_nestedClipboard n) (forall_mem_records_nestedClipboard.2 (texts_nestedRecord n))
    hnames

/-- With 510 levels the chest is read again, and with 511 it is not, though it was written. -/
theorem ofStream_toStream_nestedClipboard :
    (∃ bytes file, Yields (toStream .plain .empty (nestedClipboard 508)) ⟨bytes, none⟩ ∧
        Yields ((nestedClipboard 508).toFile .empty) file ∧
        ∀ rest, ofStream .plain .empty (bytes ++ rest) = (file.readClipboard .empty).logged) ∧
      ∃ bytes, Yields (toStream .plain .empty (nestedClipboard 509)) ⟨bytes, none⟩ ∧
        ∀ rest, Fails (ofStream .plain .empty (bytes ++ rest))
          (.format (.stream .depthLimitExceeded)) := by
  constructor
  · rcases yields_toStream_nestedClipboard 508 with ⟨bytes, hwritten⟩
    rcases hwritten #[] with ⟨said', hrun⟩
    have hdepth : ∀ record ∈ (nestedClipboard 508).records, Tag.depth (.compound record) ≤ 510 :=
      forall_mem_records_nestedClipboard.2 (Nat.le_of_eq (depth_nestedRecord 508))
    rcases (ofStream_toStream .empty .empty (built_nestedClipboard 508) (by decide) (by decide)
      (storable_records_nestedClipboard 508)).2.2 _ _ _ hrun with ⟨file, hfile, hread, -⟩
    exact ⟨bytes, file, hwritten, hfile, hread hdepth⟩
  · rcases yields_toStream_nestedClipboard 509 with ⟨bytes, hwritten⟩
    rcases hwritten #[] with ⟨said', hrun⟩
    have hdepth : ∃ record ∈ (nestedClipboard 509).records, 511 ≤ Tag.depth (.compound record) := by
      refine ⟨nestedRecord 509, ?_, ?_⟩
      · rw [records_nestedClipboard]
        exact List.mem_singleton_self _
      · rw [depth_nestedRecord]
    rcases (ofStream_toStream .empty .empty (built_nestedClipboard 509) (by decide) (by decide)
      (storable_records_nestedClipboard 509)).2.2 _ _ _ hrun with ⟨file, -, -, hread⟩
    exact ⟨bytes, hwritten, hread hdepth⟩

end Clipboard

end VoxelSchematic
