import VoxelSchematic.Proofs.Outcome
import VoxelSchematic.Proofs.Tag.Nodes
import VoxelSchematic.Wire.Encode

/-!
# The written form of a tag

* `Tag.pieces` cuts the written form of a tag into pieces: texts with their length fields, and
  everything else, which can always be written.
* `Tag.word` is the written form as one byte sequence, and `Wire.namedWord` that of a named tag.
* `Wire.image_eq_iff` says when a named tag can be written in full, and what comes out then.
-/

namespace VoxelSchematic

namespace Wire

/-- A part of the written form of a tag. -/
inductive Piece where
  | plain (bytes : List UInt8)
  /-- A length field of sixteen bits and the text. -/
  | text (s : String)
deriving DecidableEq

namespace Piece

/-- The bytes of a piece; the length field of a text keeps the low bits only. -/
def bytes : Piece → List UInt8
  | .plain bytes => bytes
  | .text s => BigEndian.encode 2 s.utf8ByteSize ++ s.toUTF8.data.toList

/-- Whether the length field of a text can state its length. -/
def Fits : Piece → Prop
  | .plain _ => True
  | .text s => s.utf8ByteSize ≤ maxTextBytes

/-- Writes a piece. -/
def emit : Piece → Writer
  | .plain bytes => Writer.put bytes
  | .text s => Writer.text s

/-- A number of a given width. -/
def number (width n : Nat) : Piece := .plain (BigEndian.encode width n)

/-- The name of a tag of a type; terminators have none. -/
def name (k : TagType) (s : String) : List Piece := if k = .terminator then [] else [.text s]

end Piece

end Wire

open Wire

namespace Tag

mutual

/-- The pieces of the value of a tag, in the order in which they are written. -/
def pieces : Tag → List Piece
  | .terminator => []
  | .byte v => [.number 1 v.toUInt8.toNat]
  | .short v => [.number 2 v.toUInt16.toNat]
  | .int v => [.number 4 v.toUInt32.toNat]
  | .long v => [.number 8 v.toUInt64.toNat]
  | .float v => [.number 4 v.bits.toNat]
  | .double v => [.number 8 v.bits.toNat]
  | .byteArray v => [.number 4 v.size, .plain v.toList]
  | .string v => [.text v]
  | .list ⟨element, items⟩ =>
      .plain [element.id] :: .number 4 items.length :: piecesOfItems items
  | .compound ⟨entries⟩ => piecesOfFields entries ++ [.plain [TagType.terminator.id]]
  | .intArray v => .number 4 v.size :: v.toList.map fun n => .number 4 n.toUInt32.toNat
  | .longArray v => .number 4 v.size :: v.toList.map fun n => .number 8 n.toUInt64.toNat

/-- The pieces of list elements. -/
def piecesOfItems : List Tag → List Piece
  | [] => []
  | tag :: rest => tag.pieces ++ piecesOfItems rest

/-- The pieces of the named tags of a compound. -/
def piecesOfFields : List (String × Tag) → List Piece
  | [] => []
  | (key, tag) :: rest =>
      .plain [tag.kind.id] :: Piece.name tag.kind key ++ tag.pieces ++ piecesOfFields rest

end

/-- The pieces of a named tag. -/
def namedPieces (key : String) (tag : Tag) : List Piece :=
  .plain [tag.kind.id] :: Piece.name tag.kind key ++ tag.pieces

/-- The written form of the value of a tag. -/
def word (tag : Tag) : List UInt8 := tag.pieces.flatMap Piece.bytes

theorem piecesOfItems_eq_flatMap (items : List Tag) : piecesOfItems items = items.flatMap pieces := by
  induction items with
  | nil => rfl
  | cons tag rest ih => simp [piecesOfItems, ih]

theorem piecesOfFields_eq_flatMap (entries : List (String × Tag)) :
    piecesOfFields entries = entries.flatMap fun entry => namedPieces entry.1 entry.2 := by
  induction entries with
  | nil => rfl
  | cons entry rest ih => simp [piecesOfFields, namedPieces, ih]

end Tag

namespace Wire

/-- The written form of a named tag. -/
def namedWord (key : String) (tag : Tag) : List UInt8 :=
  (tag.namedPieces key).flatMap Piece.bytes

/-! ## Writers run their pieces -/

theorem number_eq_emit (width n : Nat) : Writer.number width n = (Piece.number width n).emit := rfl

theorem kind_eq_emit (k : TagType) : Writer.kind k = (Piece.plain [k.id]).emit := rfl

theorem name_eq_forM (k : TagType) (s : String) :
    Writer.name k s = forM (Piece.name k s) Piece.emit := by
  by_cases h : k = .terminator
  · simp [Writer.name, Piece.name, h]
  · simp [Writer.name, Piece.name, h, Piece.emit]

mutual

theorem payloadOf_eq_forM : ∀ tag : Tag, payloadOf tag = forM tag.pieces Piece.emit
  | .terminator => rfl
  | .byte v => by simp [payloadOf, Tag.pieces, number_eq_emit]
  | .short v => by simp [payloadOf, Tag.pieces, number_eq_emit]
  | .int v => by simp [payloadOf, Tag.pieces, number_eq_emit]
  | .long v => by simp [payloadOf, Tag.pieces, number_eq_emit]
  | .float v => by simp [payloadOf, Tag.pieces, number_eq_emit]
  | .double v => by simp [payloadOf, Tag.pieces, number_eq_emit]
  | .byteArray v => by simp [payloadOf, Tag.pieces, number_eq_emit, Piece.emit]
  | .string v => by simp [payloadOf, Tag.pieces, Piece.emit]
  | .list ⟨element, items⟩ => by
      simp [payloadOf, Tag.pieces, number_eq_emit, kind_eq_emit, itemsOf_eq_forM items]
  | .compound ⟨entries⟩ => by
      simp [payloadOf, Tag.pieces, kind_eq_emit, fieldsOf_eq_forM entries]
  | .intArray v => by simp [payloadOf, Tag.pieces, number_eq_emit, List.forM_map]
  | .longArray v => by simp [payloadOf, Tag.pieces, number_eq_emit, List.forM_map]

theorem itemsOf_eq_forM : ∀ items : List Tag,
    itemsOf items = forM (Tag.piecesOfItems items) Piece.emit
  | [] => rfl
  | tag :: rest => by
      simp [itemsOf, Tag.piecesOfItems, payloadOf_eq_forM tag, itemsOf_eq_forM rest]

theorem fieldsOf_eq_forM : ∀ entries : List (String × Tag),
    fieldsOf entries = forM (Tag.piecesOfFields entries) Piece.emit
  | [] => rfl
  | (key, tag) :: rest => by
      simp [fieldsOf, Tag.piecesOfFields, kind_eq_emit, name_eq_forM, payloadOf_eq_forM tag,
        fieldsOf_eq_forM rest]

end

theorem encode_eq_forM (key : String) (tag : Tag) :
    encode key tag = forM (tag.namedPieces key) Piece.emit := by
  simp [encode, Tag.namedPieces, kind_eq_emit, name_eq_forM, payloadOf_eq_forM]

/-! ## What comes out -/

section

variable {out written : Array UInt8} {u : Unit}

theorem append_append_list (front back : List UInt8) :
    out ++ front ++ back = out ++ (front ++ back) :=
  Array.ext' (by simp)

theorem put_apply (bytes : List UInt8) : Writer.put bytes out = .ok () (out ++ bytes) := rfl

theorem emit_text_of_fits {s : String} (h : (Piece.text s).Fits) :
    (Piece.text s).emit out = .ok () (out ++ (Piece.text s).bytes) := by
  have hfit : ¬maxTextBytes < s.utf8ByteSize := Nat.not_lt.2 h
  rw [Piece.emit, Writer.text, if_neg hfit]
  calc
    (Writer.number 2 s.utf8ByteSize >>= fun _ => Writer.put s.toUTF8.data.toList) out
        = Writer.put s.toUTF8.data.toList (out ++ BigEndian.encode 2 s.utf8ByteSize) :=
          Outcome.bind_of_ok (put_apply _)
    _ = .ok () (out ++ (Piece.text s).bytes) := by rw [put_apply, append_append_list, Piece.bytes]

theorem emit_text_of_not_fits {s : String} (h : ¬(Piece.text s).Fits) :
    (Piece.text s).emit out = .error (.stringTooLong s.utf8ByteSize) out := by
  have hlong : maxTextBytes < s.utf8ByteSize := Nat.not_le.1 h
  rw [Piece.emit, Writer.text, if_pos hlong]
  rfl

theorem emit_eq_ok_iff {p : Piece} :
    p.emit out = .ok u written ↔ p.Fits ∧ written = out ++ p.bytes := by
  cases p with
  | plain bytes => simp [Piece.emit, put_apply, Piece.Fits, Piece.bytes, eq_comm]
  | text s =>
      by_cases h : (Piece.text s).Fits
      · simp [emit_text_of_fits h, h, eq_comm]
      · simp [emit_text_of_not_fits h, h]

/-- Pieces can be written one after the other if each of them fits. -/
theorem forM_emit_eq_ok_iff {ps : List Piece} :
    (forM ps Piece.emit : Writer) out = .ok u written ↔
      (∀ p ∈ ps, p.Fits) ∧ written = out ++ ps.flatMap Piece.bytes := by
  -- The buffer is arbitrary, since each piece is written behind those before it.
  induction ps generalizing out with
  | nil => simp [Outcome.pure_apply, eq_comm]
  | cons p rest ih =>
      rw [List.forM_cons, Outcome.bind_eq_ok_iff]
      simp only [emit_eq_ok_iff, ih, List.forall_mem_cons, List.flatMap_cons]
      constructor
      · intro h
        rcases h with ⟨_, mid, ⟨hp, rfl⟩, hrest, rfl⟩
        exact ⟨⟨hp, hrest⟩, append_append_list _ _⟩
      · intro h
        rcases h with ⟨⟨hp, hrest⟩, rfl⟩
        exact ⟨(), _, ⟨hp, rfl⟩, hrest, (append_append_list _ _).symm⟩

end

/-- A named tag can be written in full if each of its texts fits, and then its written form is
what comes out. -/
theorem image_eq_iff {key : String} {tag : Tag} {bytes : Array UInt8} :
    image key tag = ⟨bytes, none⟩ ↔
      (∀ p ∈ tag.namedPieces key, p.Fits) ∧ bytes.toList = namedWord key tag := by
  -- An image without a fault is a run of all pieces that succeeds.
  have hrun : image key tag = ⟨bytes, none⟩ ↔
      (forM (tag.namedPieces key) Piece.emit : Writer) #[] = .ok () bytes := by
    rw [image, Image.of, encode_eq_forM]
    cases (forM (tag.namedPieces key) Piece.emit : Writer) #[] with
    | ok u written => simp
    | error fault written => simp
  rw [hrun, forM_emit_eq_ok_iff]
  refine and_congr_right fun _ => ?_
  rw [← Array.toList_inj]
  simp [namedWord]

/-- Only a text that is too long can stop a writer. -/
theorem forM_emit_eq_error {ps : List Piece} {out left : Array UInt8} {fault : TagError}
    (h : (forM ps Piece.emit : Writer) out = .error fault left) :
    ∃ s, Piece.text s ∈ ps ∧ maxTextBytes < s.utf8ByteSize ∧
      fault = .stringTooLong s.utf8ByteSize := by
  induction ps generalizing out with
  | nil => cases h
  | cons p rest ih =>
      rw [List.forM_cons] at h
      have hlater : ∀ written, p.emit out = .ok () written →
          ∃ s, Piece.text s ∈ p :: rest ∧ maxTextBytes < s.utf8ByteSize ∧
            fault = .stringTooLong s.utf8ByteSize := by
        intro written hp
        rcases ih ((Outcome.bind_of_ok hp).symm.trans h) with ⟨s, hs, hlong⟩
        exact ⟨s, List.mem_cons_of_mem p hs, hlong⟩
      cases p with
      | plain bytes => exact hlater _ (put_apply bytes)
      | text s =>
          by_cases hfits : (Piece.text s).Fits
          · exact hlater _ (emit_text_of_fits hfits)
          · rw [Outcome.bind_of_error (emit_text_of_not_fits hfits)] at h
            cases h
            exact ⟨s, List.mem_cons_self, Nat.not_le.1 hfits, rfl⟩

theorem fault_of_image {key : String} {tag : Tag} {bytes : Array UInt8} {fault : TagError}
    (h : image key tag = ⟨bytes, some fault⟩) :
    ∃ s, Piece.text s ∈ tag.namedPieces key ∧ maxTextBytes < s.utf8ByteSize ∧
      fault = .stringTooLong s.utf8ByteSize := by
  rw [image, Image.of, encode_eq_forM] at h
  cases hrun : (forM (tag.namedPieces key) Piece.emit : Writer) #[] with
  | ok u written => simp [hrun] at h
  | error found left =>
      simp only [hrun, Image.mk.injEq, Option.some.injEq] at h
      rw [← h.2]
      exact forM_emit_eq_error hrun

end Wire

end VoxelSchematic
