import Mathlib
import VoxelSchematic.Proofs.Wire.Words

/-!
# Texts that are too long

`Tag.texts` lists the texts of a tag in the order in which they are written, and `Tag.namedTexts`
those of a named tag. The writer stops at the first that its length field cannot state, and by then
it has written everything in front of that text.
-/

namespace VoxelSchematic

open Wire

namespace Tag

mutual

/-- The texts of the value of a tag, in the order in which they are written. -/
def texts : Tag → List String
  | .string v => [v]
  | .list ⟨_, items⟩ => textsOfItems items
  | .compound ⟨entries⟩ => textsOfFields entries
  | _ => []

/-- The texts of list elements. -/
def textsOfItems : List Tag → List String
  | [] => []
  | tag :: rest => tag.texts ++ textsOfItems rest

/-- The texts of the named tags of a compound; the name of a terminator is not written. -/
def textsOfFields : List (String × Tag) → List String
  | [] => []
  | (key, tag) :: rest =>
      (if tag.kind = .terminator then [] else [key]) ++ tag.texts ++ textsOfFields rest

end

/-- The texts of a named tag. -/
def namedTexts (key : String) (tag : Tag) : List String :=
  (if tag.kind = .terminator then [] else [key]) ++ tag.texts

end Tag

namespace Wire

/-! ## The texts among the pieces -/

namespace Piece

/-- The text of a piece that has one. -/
def text? : Piece → Option String
  | .plain _ => none
  | .text s => some s

theorem text?_eq_some_iff {p : Piece} {s : String} : p.text? = some s ↔ p = .text s := by
  cases p with
  | plain bytes => simp [text?]
  | text t => simp [text?]

@[simp]
theorem filterMap_text?_plain (bytes : List UInt8) (ps : List Piece) :
    (.plain bytes :: ps).filterMap text? = ps.filterMap text? := rfl

@[simp]
theorem filterMap_text?_name (k : TagType) (key : String) :
    (name k key).filterMap text? = if k = .terminator then [] else [key] := by
  by_cases h : k = .terminator
  · simp [name, h]
  · simp [name, h, text?]

/-- Pieces fit if their texts do. -/
theorem forall_fits_iff {ps : List Piece} :
    (∀ p ∈ ps, p.Fits) ↔ ∀ s ∈ ps.filterMap text?, s.utf8ByteSize ≤ maxTextBytes := by
  simp only [List.mem_filterMap, text?_eq_some_iff]
  constructor
  · rintro h s ⟨_, hp, rfl⟩
    exact h _ hp
  · intro h p hp
    cases p with
    | plain bytes => trivial
    | text s => exact h s ⟨_, hp, rfl⟩

end Piece

mutual

theorem filterMap_text?_pieces : ∀ tag : Tag, tag.pieces.filterMap Piece.text? = tag.texts
  | .terminator | .byte _ | .short _ | .int _ | .long _ | .float _ | .double _ | .byteArray _
  | .string _ => rfl
  | .list ⟨element, items⟩ => by
      simpa [Tag.pieces, Tag.texts, Piece.number] using filterMap_text?_items items
  | .compound ⟨entries⟩ => by
      simpa [Tag.pieces, Tag.texts] using filterMap_text?_fields entries
  | .intArray v => by simp [Tag.pieces, Tag.texts, Piece.number, Piece.text?]
  | .longArray v => by simp [Tag.pieces, Tag.texts, Piece.number, Piece.text?]

theorem filterMap_text?_items : ∀ items : List Tag,
    (Tag.piecesOfItems items).filterMap Piece.text? = Tag.textsOfItems items
  | [] => rfl
  | tag :: rest => by
      simp [Tag.piecesOfItems, Tag.textsOfItems, filterMap_text?_pieces tag,
        filterMap_text?_items rest]

theorem filterMap_text?_fields : ∀ entries : List (String × Tag),
    (Tag.piecesOfFields entries).filterMap Piece.text? = Tag.textsOfFields entries
  | [] => rfl
  | (key, tag) :: rest => by
      simp [Tag.piecesOfFields, Tag.textsOfFields, filterMap_text?_pieces tag,
        filterMap_text?_fields rest]

end

theorem filterMap_text?_namedPieces (key : String) (tag : Tag) :
    (tag.namedPieces key).filterMap Piece.text? = tag.namedTexts key := by
  simp [Tag.namedPieces, Tag.namedTexts, filterMap_text?_pieces]

/-! ## Where the writer stops -/

section

variable {key : String} {tag : Tag} {out : Array UInt8}

/-- Pieces up to a text that does not fit are written, and nothing of that text. -/
theorem forM_emit_stops {before behind : List Piece} {s : String}
    (hbefore : ∀ p ∈ before, p.Fits) (hlong : ¬(Piece.text s).Fits) :
    (forM (before ++ .text s :: behind) Piece.emit : Writer) out =
      .error (.stringTooLong s.utf8ByteSize) (out ++ before.flatMap Piece.bytes) := by
  have hrun : (forM before Piece.emit : Writer) out =
      .ok () (out ++ before.flatMap Piece.bytes) := forM_emit_eq_ok_iff.2 ⟨hbefore, rfl⟩
  have hstop : (forM (.text s :: behind) Piece.emit : Writer) (out ++ before.flatMap Piece.bytes) =
      .error (.stringTooLong s.utf8ByteSize) (out ++ before.flatMap Piece.bytes) := by
    rw [List.forM_cons]
    exact Outcome.bind_of_error (emit_text_of_not_fits hlong)
  rw [List.forM_append]
  exact (Outcome.bind_of_ok hrun).trans hstop

/-- A list of texts in which one stands is the list of some pieces in which it stands. -/
theorem exists_pieces_of_namedTexts {short long : List String} {s : String}
    (h : tag.namedTexts key = short ++ s :: long) :
    ∃ before behind : List Piece, tag.namedPieces key = before ++ .text s :: behind ∧
      before.filterMap Piece.text? = short ∧ behind.filterMap Piece.text? = long := by
  rw [← filterMap_text?_namedPieces, List.filterMap_eq_append_iff] at h
  obtain ⟨front, back, hpieces, hshort, hback⟩ := h
  obtain ⟨plains, p, behind, rfl, hplains, hp, hlong⟩ := List.filterMap_eq_cons_iff.1 hback
  refine ⟨front ++ plains, behind, ?_, ?_, hlong⟩
  · rw [hpieces, Piece.text?_eq_some_iff.1 hp, List.append_assoc]
  · rw [List.filterMap_append, hshort, List.filterMap_eq_nil_iff.2 hplains, List.append_nil]

theorem encode_of_fits (h : ∀ s ∈ tag.namedTexts key, s.utf8ByteSize ≤ maxTextBytes) :
    encode key tag out = .ok () (out ++ namedWord key tag) := by
  rw [encode_eq_forM]
  refine forM_emit_eq_ok_iff.2 ⟨?_, rfl⟩
  rwa [Piece.forall_fits_iff, filterMap_text?_namedPieces]

theorem encode_of_long {short long : List String} {s : String}
    (htexts : tag.namedTexts key = short ++ s :: long)
    (hshort : ∀ t ∈ short, t.utf8ByteSize ≤ maxTextBytes) (hlong : maxTextBytes < s.utf8ByteSize) :
    ∃ before behind : List Piece, tag.namedPieces key = before ++ .text s :: behind ∧
      before.filterMap Piece.text? = short ∧ behind.filterMap Piece.text? = long ∧
      encode key tag out =
        .error (.stringTooLong s.utf8ByteSize) (out ++ before.flatMap Piece.bytes) := by
  obtain ⟨before, behind, hpieces, hbefore, hbehind⟩ := exists_pieces_of_namedTexts htexts
  refine ⟨before, behind, hpieces, hbefore, hbehind, ?_⟩
  rw [encode_eq_forM, hpieces]
  exact forM_emit_stops (Piece.forall_fits_iff.2 (hbefore.symm ▸ hshort)) (Nat.not_le.2 hlong)

/-- One of the texts that are too long is the first. -/
theorem exists_first_long {texts : List String}
    (h : ¬∀ s ∈ texts, s.utf8ByteSize ≤ maxTextBytes) :
    ∃ short s long, texts = short ++ s :: long ∧
      (∀ t ∈ short, t.utf8ByteSize ≤ maxTextBytes) ∧ maxTextBytes < s.utf8ByteSize := by
  induction texts with
  | nil => simp at h
  | cons t rest ih =>
      by_cases ht : t.utf8ByteSize ≤ maxTextBytes
      · have hrest : ¬∀ s ∈ rest, s.utf8ByteSize ≤ maxTextBytes := fun hall =>
          h (List.forall_mem_cons.2 ⟨ht, hall⟩)
        obtain ⟨short, s, long, rfl, hshort, hlong⟩ := ih hrest
        exact ⟨t :: short, s, long, rfl, List.forall_mem_cons.2 ⟨ht, hshort⟩, hlong⟩
      · exact ⟨[], t, rest, rfl, by simp, Nat.not_le.1 ht⟩

/-- The fault of an image is that of the first text that is too long. -/
theorem fault_image_eq_some_iff {fault : TagError} :
    (image key tag).fault = some fault ↔ ∃ short s long, tag.namedTexts key = short ++ s :: long ∧
      (∀ t ∈ short, t.utf8ByteSize ≤ maxTextBytes) ∧ maxTextBytes < s.utf8ByteSize ∧
      fault = .stringTooLong s.utf8ByteSize := by
  rw [image, Image.of]
  constructor
  · intro h
    by_cases hfits : ∀ s ∈ tag.namedTexts key, s.utf8ByteSize ≤ maxTextBytes
    · rw [encode_of_fits hfits] at h
      cases h
    · obtain ⟨short, s, long, htexts, hshort, hlong⟩ := exists_first_long hfits
      obtain ⟨before, behind, -, -, -, hfault⟩ := encode_of_long htexts hshort hlong
      rw [hfault] at h
      exact ⟨short, s, long, htexts, hshort, hlong, (Option.some.inj h).symm⟩
  · rintro ⟨short, s, long, htexts, hshort, hlong, rfl⟩
    obtain ⟨before, behind, -, -, -, hfault⟩ := encode_of_long htexts hshort hlong
    rw [hfault]

end

/-- A writer fails exactly if some text of the named tag is longer than 65535 bytes. The fault
states the length of the first such text, and what has been written is the pieces in front of it,
with all their texts and nothing of the long one. Without such a text everything is written. -/
theorem encode_stops_at_long_text (key : String) (tag : Tag) (out : Array UInt8) :
    ((∃ fault left, encode key tag out = .error fault left) ↔
        ∃ s ∈ tag.namedTexts key, 65535 < s.utf8ByteSize) ∧
      (∀ short s long, tag.namedTexts key = short ++ s :: long →
        (∀ t ∈ short, t.utf8ByteSize ≤ 65535) → 65535 < s.utf8ByteSize →
        ∃ before behind : List Piece, tag.namedPieces key = before ++ .text s :: behind ∧
          before.filterMap Piece.text? = short ∧ behind.filterMap Piece.text? = long ∧
          encode key tag out =
            .error (.stringTooLong s.utf8ByteSize) (out ++ before.flatMap Piece.bytes)) ∧
      ((∀ s ∈ tag.namedTexts key, s.utf8ByteSize ≤ 65535) →
        encode key tag out = .ok () (out ++ namedWord key tag)) := by
  refine ⟨?_, fun short s long => encode_of_long, encode_of_fits⟩
  constructor
  · rintro ⟨fault, left, hfault⟩
    by_contra hshort
    have hfits : ∀ s ∈ tag.namedTexts key, s.utf8ByteSize ≤ 65535 := by simpa using hshort
    exact nomatch (encode_of_fits hfits).symm.trans hfault
  · rintro ⟨s, hs, hlong⟩
    obtain ⟨short, t, long, htexts, hshort, ht⟩ :=
      exists_first_long fun hall => Nat.not_le.2 hlong (hall s hs)
    obtain ⟨before, behind, -, -, -, hfault⟩ := encode_of_long htexts hshort ht
    exact ⟨_, _, hfault⟩

/-! ## A text that is too long -/

theorem utf8ByteSize_replicate (n : Nat) (c : Char) :
    (String.ofList (List.replicate n c)).utf8ByteSize = n * c.utf8Size := by
  induction n with
  | zero => simp
  | succ n ih =>
      rw [String.utf8ByteSize_ofList] at ih ⊢
      rw [List.replicate_succ, String.utf8Len_cons, ih, Nat.succ_mul]

/-- A text with few enough characters and too many bytes. -/
def longText : String := String.ofList (List.replicate 32768 'é')

theorem utf8ByteSize_longText : longText.utf8ByteSize = 65536 := utf8ByteSize_replicate 32768 'é'

/-- A compound with a list in which a text is between two others. -/
def signTag (line : String) : Tag :=
  .compound ⟨[("color", .byte 1),
    ("lines", .list ⟨.string, [.string "a", .string line, .string "b"]⟩)]⟩

theorem namedTexts_signTag (line : String) :
    (signTag line).namedTexts "sign" = ["sign", "color", "lines", "a"] ++ line :: ["b"] := rfl

theorem encode_signTag_longText :
    ∃ before behind : List Piece,
      (signTag longText).namedPieces "sign" = before ++ .text longText :: behind ∧
      before.filterMap Piece.text? = ["sign", "color", "lines", "a"] ∧
      behind.filterMap Piece.text? = ["b"] ∧
      encode "sign" (signTag longText) #[] =
        .error (.stringTooLong 65536) ((#[] : Array UInt8) ++ before.flatMap Piece.bytes) := by
  have hlong : 65535 < longText.utf8ByteSize := by
    rw [utf8ByteSize_longText]
    decide
  obtain ⟨-, hstops, -⟩ := encode_stops_at_long_text "sign" (signTag longText) #[]
  rw [← utf8ByteSize_longText]
  exact hstops _ longText ["b"] (namedTexts_signTag longText) (by decide) hlong

end Wire

end VoxelSchematic
