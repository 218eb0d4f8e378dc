import VoxelSchematic.Proofs.Tag.Built
import VoxelSchematic.Proofs.Wire.Settling
import VoxelSchematic.Wire.File

/-!
# Reading and writing undo each other

* `Wire.Carriable` bounds what the wire format can carry. It says nothing about texts: a text that
  does not fit is found by the writer, all other trees are written without complaint.
* `decode_image_iff`: what was written is read back exactly for the carriable trees.
* `image_decode`: what was read is carriable and is written back, in no more bytes, and in the
  same ones unless a name came twice.
-/

namespace VoxelSchematic

/-! ## What the wire demands of a node -/

namespace Tag

/-- No terminator stands among the fields of a compound. -/
def HoldsNoTerminator : Tag → Prop
  | .compound fields => .terminator ∉ fields.values
  | _ => True

/-- A list of terminators has none. -/
def EmptyIfOfTerminators : Tag → Prop
  | .list l => l.element = .terminator → l.items = []
  | _ => True

/-- The number that a length field of thirty-two bits has to state. -/
def count : Tag → Nat
  | .byteArray v => v.size
  | .list l => TagList.length l
  | .intArray v => v.size
  | .longArray v => v.size
  | _ => 0

/-- Texts and names of at most `n` bytes. -/
def TextsWithin (n : Nat) : Tag → Prop
  | .string s => s.utf8ByteSize ≤ n
  | .compound fields => ∀ key ∈ fields.keys, key.utf8ByteSize ≤ n
  | _ => True

end Tag

namespace Wire

open Tag Reader

/-- A named tree that its written form determines. -/
structure Carriable (name : String) (root : Tag) : Prop where
  holdsNoTerminator : root.Everywhere HoldsNoTerminator
  emptyIfOfTerminators : root.Everywhere EmptyIfOfTerminators
  count_lt : root.Everywhere fun node => node.count < countLimit
  depth_le : root.depth ≤ maxDepth
  name_eq : root = .terminator → name = ""

section

variable {name : String} {root tag : Tag}

theorem kind_eq_terminator_iff : tag.kind = .terminator ↔ tag = .terminator := by
  cases tag <;> simp [Tag.kind]

/-- What is legible, condition by condition. -/
theorem legible_iff :
    Legible tag ↔ UniformNode tag ∧ HoldsNoTerminator tag ∧ EmptyIfOfTerminators tag ∧
      tag.count < countLimit ∧ TextsWithin maxTextBytes tag := by
  -- Only lists and compounds have more than one condition; the rest is one count or one text.
  have hzero : (0 : Nat) < countLimit := by decide
  cases tag with
  | list l =>
      simp only [Legible, UniformNode, HoldsNoTerminator, EmptyIfOfTerminators, count, TagList.length,
        TextsWithin, true_and, and_true]
      exact ⟨fun h => ⟨h.2.2, h.2.1, h.1⟩, fun h => ⟨h.2.2, h.2.1, h.1⟩⟩
  | compound fields =>
      simp only [Legible, UniformNode, HoldsNoTerminator, EmptyIfOfTerminators, count, hzero,
        TextsWithin, true_and, ne_eq, kind_eq_terminator_iff, OrderedMap.values, OrderedMap.keys,
        List.mem_map, Piece.Fits]
      constructor
      · intro h
        constructor
        · rintro ⟨entry, he, hvalue⟩
          exact (h entry he).1 hvalue
        · rintro key ⟨entry, he, hkey⟩
          exact hkey ▸ (h entry he).2
      · intro h entry he
        exact ⟨fun hvalue => h.1 ⟨entry, he, hvalue⟩, h.2 entry.1 ⟨entry, he, rfl⟩⟩
  | _ => simp [Legible, UniformNode, HoldsNoTerminator, EmptyIfOfTerminators, count, TextsWithin,
      Piece.Fits, hzero]

theorem everywhere_legible_iff :
    tag.Everywhere Legible ↔ tag.Everywhere UniformNode ∧ tag.Everywhere HoldsNoTerminator ∧
      tag.Everywhere EmptyIfOfTerminators ∧ (tag.Everywhere fun node => node.count < countLimit) ∧
      tag.Everywhere (TextsWithin maxTextBytes) := by
  have hsplit : Legible = fun node => UniformNode node ∧ HoldsNoTerminator node ∧
      EmptyIfOfTerminators node ∧ node.count < countLimit ∧ TextsWithin maxTextBytes node :=
    funext fun node => propext legible_iff
  simp only [hsplit, everywhere_and]

/-! ## Texts and pieces -/

theorem fits_namedPieces_iff :
    (∀ p ∈ root.namedPieces name, p.Fits) ↔
      (root ≠ .terminator → name.utf8ByteSize ≤ maxTextBytes) ∧ ∀ p ∈ root.pieces, p.Fits := by
  by_cases h : root = .terminator
  · subst h
    simp [namedPieces, Piece.name, Tag.kind, Piece.Fits]
  · have hkind : root.kind ≠ .terminator := fun hk => h (kind_eq_terminator_iff.1 hk)
    simp [namedPieces, Piece.name, hkind, h, Piece.Fits]

/-- The pieces of a tree fit if its texts and the names in it are short enough. -/
theorem fits_pieces_iff (h : tag.Everywhere HoldsNoTerminator) :
    (∀ p ∈ tag.pieces, p.Fits) ↔ tag.Everywhere (TextsWithin maxTextBytes) := by
  induction tag using byLayers with
  | layer tag ih =>
      cases tag with
      | list l =>
          rcases l with ⟨element, items⟩
          have hbelow := (everywhere_list.1 h).2
          simp only [pieces, piecesOfItems_eq_flatMap, everywhere_list, TextsWithin, true_and,
            List.forall_mem_cons, List.mem_flatMap, Piece.Fits, Piece.number]
          constructor
          · intro hfits tag ht
            exact (ih tag ht (hbelow tag ht)).1 fun p hp => hfits p ⟨tag, ht, hp⟩
          · intro hall p hp
            rcases hp with ⟨tag, ht, hp⟩
            exact (ih tag ht (hbelow tag ht)).2 (hall tag ht) p hp
      | compound fields =>
          rcases fields with ⟨entries⟩
          rcases everywhere_compound.1 h with ⟨hhere, hbelow⟩
          -- A field with a terminator would be written without its name, so that the name could be
          -- too long without anyone noticing.
          have hvalue : ∀ entry ∈ entries, entry.2 ≠ .terminator := by
            intro entry he hterminator
            exact hhere (List.mem_map.2 ⟨entry, he, hterminator⟩)
          have hentry : ∀ entry ∈ entries, (∀ p ∈ entry.2.namedPieces entry.1, p.Fits) ↔
              entry.1.utf8ByteSize ≤ maxTextBytes ∧
                entry.2.Everywhere (TextsWithin maxTextBytes) := by
            intro entry he
            have hchild := ih entry.2 (List.mem_map_of_mem he) (hbelow entry he)
            rw [fits_namedPieces_iff, hchild]
            simp [hvalue entry he]
          have hkeys : TextsWithin maxTextBytes (.compound ⟨entries⟩) ↔
              ∀ entry ∈ entries, entry.1.utf8ByteSize ≤ maxTextBytes := by
            simp [TextsWithin, OrderedMap.keys]
          have hpieces : (∀ p ∈ pieces (.compound ⟨entries⟩), p.Fits) ↔
              ∀ entry ∈ entries, ∀ p ∈ entry.2.namedPieces entry.1, p.Fits := by
            simp only [pieces, piecesOfFields_eq_flatMap, List.mem_append, List.mem_flatMap,
              List.mem_singleton]
            constructor
            · intro hfits entry he p hp
              exact hfits p (.inl ⟨entry, he, hp⟩)
            · intro hall p hp
              rcases hp with ⟨entry, he, hp⟩ | rfl
              · exact hall entry he p hp
              · trivial
          rw [hpieces, everywhere_compound, hkeys]
          constructor
          · intro hall
            exact ⟨fun entry he => ((hentry entry he).1 (hall entry he)).1,
              fun entry he => ((hentry entry he).1 (hall entry he)).2⟩
          · intro hall entry he
            exact (hentry entry he).2 ⟨hall.1 entry he, hall.2 entry he⟩
      | _ =>
          refine Iff.trans ?_ (everywhere_leaf rfl).symm
          simp [pieces, TextsWithin, Piece.Fits, Piece.number]

/-- What the wire carries: the carriable trees with all texts in bounds. -/
theorem spelled_iff (uniform : root.Everywhere UniformNode) :
    Spelled name root ↔ Carriable name root ∧ ∀ p ∈ root.namedPieces name, p.Fits := by
  constructor
  · intro h
    rcases everywhere_legible_iff.1 h.legible with ⟨-, hterminator, hempty, hcount, htexts⟩
    refine ⟨⟨hterminator, hempty, hcount, h.depth_le, ?_⟩, ?_⟩
    · intro hroot
      exact h.name_eq (kind_eq_terminator_iff.2 hroot)
    · refine fits_namedPieces_iff.2 ⟨fun hroot => ?_, (fits_pieces_iff hterminator).2 htexts⟩
      exact h.name_fits fun hkind => hroot (kind_eq_terminator_iff.1 hkind)
  · intro h
    rcases h with ⟨hcarriable, hfits⟩
    rcases fits_namedPieces_iff.1 hfits with ⟨hname, hpieces⟩
    have htexts := (fits_pieces_iff hcarriable.holdsNoTerminator).1 hpieces
    refine ⟨?_, hcarriable.depth_le, fun hkind => ?_, fun hkind => ?_⟩
    · exact everywhere_legible_iff.2 ⟨uniform, hcarriable.holdsNoTerminator,
        hcarriable.emptyIfOfTerminators, hcarriable.count_lt, htexts⟩
    · exact hname fun hroot => hkind (kind_eq_terminator_iff.2 hroot)
    · exact hcarriable.name_eq (kind_eq_terminator_iff.1 hkind)

/-! ## Writing, then reading -/

/-- A written tag starts with the number of a type, which no gzip member starts with. -/
theorem isGzip_image {bytes : Array UInt8} (written : image name tag = ⟨bytes, none⟩) :
    TagFile.isGzip bytes = false := by
  have hbytes := (image_eq_iff.1 written).2
  have hword : bytes.toList =
      tag.kind.id :: (Piece.name tag.kind name ++ tag.pieces).flatMap Piece.bytes := by
    rw [hbytes]
    rfl
  have hfirst : ((0x1f : UInt8) == tag.kind.id) = false := by
    cases tag.kind <;> decide
  rw [TagFile.isGzip, hword, Gzip.magic, List.isPrefixOf_cons_cons, hfirst, Bool.false_and]

/-- Of the trees that can be built and written, reading gives back exactly the carriable ones, and
leaves whatever follows. The reader that looks for a gzip member first reads them all the same. -/
theorem decode_image_iff (name : String) (built : tag.Built) {bytes : Array UInt8}
    (written : image name tag = ⟨bytes, none⟩) :
    (∀ rest, decode (bytes.toList ++ rest) = .ok (name, tag) rest ↔ Carriable name tag) ∧
      (Carriable name tag → TagFile.ofEither bytes = TagFile.ofBytes bytes ∧
        TagFile.ofBytes bytes = .ok ⟨name, tag⟩) := by
  rcases image_eq_iff.1 written with ⟨hfits, hbytes⟩
  have hregular := built.regular
  have hread : ∀ rest, decode (bytes.toList ++ rest) = .ok (name, tag) rest ↔
      Carriable name tag := by
    intro rest
    constructor
    -- The tree read is the settled form of something spelled, and settling keeps that.
    · intro hdecode
      rcases decode_eq_ok_iff.1 hdecode with ⟨raw, hraw, rfl⟩
      have hspelled := (transcribe_eq_ok_iff.1 hraw).1
      exact ((spelled_iff hregular.uniform).1 hspelled.settled).1
    -- The written bytes spell the tree itself, and a tree without repeated names is settled.
    · intro hcarriable
      have hspelled := (spelled_iff hregular.uniform).2 ⟨hcarriable, hfits⟩
      have htranscript := transcribe_eq_ok_iff.2 ⟨hspelled, congrArg (· ++ rest) hbytes⟩
      exact decode_eq_ok_iff.2 ⟨tag, htranscript, Tag.settled_of_distinct hregular.distinct⟩
  refine ⟨hread, fun hcarriable => ⟨?_, ?_⟩⟩
  · simp [TagFile.ofEither, isGzip_image written]
  · have hall := (hread []).2 hcarriable
    rw [List.append_nil] at hall
    simp [TagFile.ofBytes, hall, TagFile.outcome]

/-- An empty list keeps the type of its elements. -/
theorem decode_image_empty_list :
    decode [10, 0, 0, 9, 0, 1, 97, 3, 0, 0, 0, 0, 0, 7] =
      .ok ("", .compound ⟨[("a", .list ⟨.int, []⟩)]⟩) [7] := by
  have hbuilt : Built (.compound ⟨[("a", .list ⟨.int, []⟩)]⟩) :=
    .insert "a" .empty (.emptyList .int)
  have hwritten : image "" (.compound ⟨[("a", .list ⟨.int, []⟩)]⟩) =
      ⟨#[10, 0, 0, 9, 0, 1, 97, 3, 0, 0, 0, 0, 0], none⟩ := by decide
  have hcarriable : Carriable "" (.compound ⟨[("a", .list ⟨.int, []⟩)]⟩) := by
    constructor
    · simp [everywhere_compound, everywhere_list, HoldsNoTerminator, OrderedMap.values]
    · simp [everywhere_compound, everywhere_list, EmptyIfOfTerminators]
    · simp [everywhere_compound, everywhere_list, count, TagList.length, countLimit]
    · decide
    · simp
  exact ((decode_image_iff "" hbuilt hwritten).1 [7]).2 hcarriable

/-! ## Reading, then writing -/

/-- What was read is regular and carriable, and it is written back in no more bytes than were read:
in the same bytes if no compound of the transcript repeats a name, and in fewer if one does. -/
theorem image_decode {input rest : List UInt8} (read : decode input = .ok (name, tag) rest) :
    ∃ (used : List UInt8) (raw : Tag) (bytes : Array UInt8),
      input = used ++ rest ∧ transcribe input = .ok (name, raw) rest ∧
      used = namedWord name raw ∧ tag = raw.settled ∧
      tag.Regular ∧ Carriable name tag ∧
      name.utf8ByteSize ≤ maxTextBytes ∧ tag.Everywhere (TextsWithin maxTextBytes) ∧
      image name tag = ⟨bytes, none⟩ ∧ bytes.size ≤ used.length ∧
      (∀ behind, decode (bytes.toList ++ behind) = .ok (name, tag) behind) ∧
      (raw.Everywhere DistinctNode → bytes.toList = used) ∧
      (¬raw.Everywhere DistinctNode → bytes.size < used.length) := by
  rcases decode_eq_ok_iff.1 read with ⟨raw, htranscript, rfl⟩
  rcases transcribe_eq_ok_iff.1 htranscript with ⟨hspelled, hinput⟩
  have hsettled := hspelled.settled
  rcases everywhere_legible_iff.1 hsettled.legible with ⟨huniform, -, -, -, htexts⟩
  have hregular : raw.settled.Regular := ⟨huniform, Tag.distinct_settled raw⟩
  rcases (spelled_iff huniform).1 hsettled with ⟨hcarriable, hfits⟩
  have hname : name.utf8ByteSize ≤ maxTextBytes := by
    by_cases hkind : raw.kind = .terminator
    · rw [hspelled.name_eq hkind]
      decide
    · exact hspelled.name_fits hkind
  have hwritten : image name raw.settled = ⟨(namedWord name raw.settled).toArray, none⟩ :=
    image_eq_iff.2 ⟨hfits, rfl⟩
  -- With distinct names settling changes nothing; with a repeated one it saves bytes.
  have hsame : raw.Everywhere DistinctNode →
      (namedWord name raw.settled).toArray.toList = namedWord name raw := by
    intro hdistinct
    rw [Tag.settled_of_distinct hdistinct]
  have hless : ¬raw.Everywhere DistinctNode →
      (namedWord name raw.settled).toArray.size < (namedWord name raw).length := by
    intro hrepeat
    simpa using length_namedWord_settled_lt hrepeat
  have hle : (namedWord name raw.settled).toArray.size ≤ (namedWord name raw).length := by
    by_cases hdistinct : raw.Everywhere DistinctNode
    · exact Nat.le_of_eq (congrArg List.length (hsame hdistinct))
    · exact Nat.le_of_lt (hless hdistinct)
  have hback := (decode_image_iff name (Tag.built_iff_regular.2 hregular) hwritten).1
  exact ⟨namedWord name raw, raw, _, hinput, htranscript, rfl, rfl, hregular, hcarriable, hname,
    htexts, hwritten, hle, fun behind => (hback behind).2 hcarriable, hsame, hless⟩

/-- Where a name comes twice, what is written back is read as the same tree. -/
theorem image_decode_repeated_name :
    decode [10, 0, 0, 1, 0, 1, 97, 3, 1, 0, 1, 97, 5, 0] =
        .ok ("", .compound ⟨[("a", .byte 5)]⟩) [] ∧
      ∃ bytes, image "" (.compound ⟨[("a", .byte 5)]⟩) = ⟨bytes, none⟩ ∧
        ∀ behind, decode (bytes.toList ++ behind) =
          .ok ("", .compound ⟨[("a", .byte 5)]⟩) behind := by
  have hread : decode [10, 0, 0, 1, 0, 1, 97, 3, 1, 0, 1, 97, 5, 0] =
      .ok ("", .compound ⟨[("a", .byte 5)]⟩) [] := by cbv
  rcases image_decode hread with
    ⟨used, raw, bytes, -, -, -, -, -, -, -, -, hwritten, -, hback, -⟩
  exact ⟨hread, bytes, hwritten, hback⟩

end

end Wire

end VoxelSchematic
