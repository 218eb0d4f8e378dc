/-!
# Expanding compressed data

The inverse of the deflate compression: blocks of literal bytes and of back references, written
with prefix codes that the data itself describes.

* `Gzip.inflate` expands the data from a given byte on.
* Data is expanded a stretch at a time. A stretch ends where the window of `windowSize` bytes is
  full or where a block of `blockSize` input bytes is used up. A defect found inside a stretch
  takes the whole stretch with it; `Expansion.delivered` counts what came before.
* A reference that reaches back before the first byte meets the empty window, which holds zeros.

Every step takes at least one bit, so the number of bits bounds every loop.
-/

namespace VoxelSchematic.Gzip

inductive InflateFault where
  /-- The data ends inside a block. -/
  | exhausted
  | corrupt
deriving Repr, DecidableEq

structure Expansion where
  /-- The next bit of the input. -/
  position : Nat
  output : Array UInt8
  /-- The length of the output at the end of the last finished stretch. -/
  delivered : Nat

/-- Steps of an expansion of a fixed input. -/
abbrev Inflate (α : Type) := ReaderT (Array UInt8) (EStateM InflateFault Expansion) α

def windowSize : Nat := 32768

def blockSize : Nat := 8192

namespace Inflate

def corrupt {α : Type} : Inflate α := throw .corrupt

/-- The next bit; the first one of an input block closes a stretch. -/
def bit : Inflate Nat := fun input s =>
  match input[s.position / 8]? with
  | none => .error .exhausted s
  | some byte =>
      let value := (byte.toNat >>> (s.position % 8)) % 2
      let delivered := if s.position % (8 * blockSize) = 0 then s.output.size else s.delivered
      .ok value ⟨s.position + 1, s.output, delivered⟩

/-- A number of `n` bits, the lowest first. -/
def bits : Nat → Inflate Nat
  | 0 => return 0
  | n + 1 => do
      let low ← bit
      let high ← bits n
      return low + 2 * high

def align : Inflate Unit :=
  modify fun s => { s with position := (s.position + 7) / 8 * 8 }

/-- Appends to the output; the first byte after a full window closes a stretch. -/
def push (byte : UInt8) : Inflate Unit := fun _ s =>
  let size := s.output.size
  let delivered := if size % windowSize = 0 then size else s.delivered
  .ok () ⟨s.position, s.output.push byte, delivered⟩

/-- The byte `distance` places before the end of the output. -/
def earlier (distance : Nat) : Inflate UInt8 := fun _ s =>
  let size := s.output.size
  .ok (if distance ≤ size then s.output.getD (size - distance) 0 else 0) s

/-- Repeats `n` bytes from `distance` places back. -/
def copy (distance : Nat) : Nat → Inflate Unit
  | 0 => return
  | n + 1 => do
      push (← earlier distance)
      copy distance n

end Inflate

open Inflate

/-! ## Prefix codes -/

/-- A canonical prefix code: how many codes there are of each length, and the symbols in the
order of their codes. -/
structure PrefixCode where
  counts : List Nat
  symbols : Array Nat

namespace PrefixCode

/-- The number of codes of each length, from one bit up to the longest code; there is always a
number for one bit. -/
def countLengths (lengths : List Nat) : List Nat :=
  (List.range (lengths.foldl max 1)).map fun i => lengths.count (i + 1)

def symbolsOfLength (lengths : List Nat) (length : Nat) : List Nat :=
  (lengths.zipIdx.filter fun entry => entry.1 = length).map Prod.snd

/-- The part of the code space that the codes take, where `2 ^ counts.length` is all of it. -/
def occupancy (counts : List Nat) : Nat := counts.foldl (fun sum n => 2 * sum + n) 0

/-- The codes take all of the code space, and no part of it twice. -/
def isFull (counts : List Nat) : Bool := occupancy counts = 1 <<< counts.length

/-- There is no code, or a single one of one bit. -/
def isSparse (counts : List Nat) : Bool := counts = [0] || counts = [1]

/-- The code with the given lengths. It leaves space unused only where it is sparse, and only
if `mayBeSparse`. -/
def ofLengths? (lengths : List Nat) (mayBeSparse : Bool) : Option PrefixCode :=
  let counts := countLengths lengths
  if isFull counts || (mayBeSparse && isSparse counts) then
    some ⟨counts, ((List.range counts.length).flatMap fun i =>
      symbolsOfLength lengths (i + 1)).toArray⟩
  else none

/-- Extends `code` bit by bit until it is one of the codes of its length; behind the longest
code nothing is left to try. `first` is the first code of the present length and `index` the
position of its symbol. -/
def nextFrom (symbols : Array Nat) : List Nat → Nat → Nat → Nat → Inflate Nat
  | [], _, _, _ => corrupt
  | count :: longer, code, first, index => do
      let code := 2 * code + (← bit)
      let first := 2 * first
      if code < first + count then
        match symbols[index + (code - first)]? with
        | some symbol => return symbol
        | none => corrupt
      else nextFrom symbols longer code (first + count) (index + count)

def next (c : PrefixCode) : Inflate Nat := nextFrom c.symbols c.counts 0 0 0

end PrefixCode

/-! ## Blocks -/

/-- The base and the number of extra bits of each length symbol, from 257 on. -/
def lengthSymbols : List (Nat × Nat) :=
  [(3, 0), (4, 0), (5, 0), (6, 0), (7, 0), (8, 0), (9, 0), (10, 0), (11, 1), (13, 1), (15, 1),
   (17, 1), (19, 2), (23, 2), (27, 2), (31, 2), (35, 3), (43, 3), (51, 3), (59, 3), (67, 4),
   (83, 4), (99, 4), (115, 4), (131, 5), (163, 5), (195, 5), (227, 5), (258, 0)]

def distanceSymbols : List (Nat × Nat) :=
  [(1, 0), (2, 0), (3, 0), (4, 0), (5, 1), (7, 1), (9, 2), (13, 2), (17, 3), (25, 3), (33, 4),
   (49, 4), (65, 5), (97, 5), (129, 6), (193, 6), (257, 7), (385, 7), (513, 8), (769, 8),
   (1025, 9), (1537, 9), (2049, 10), (3073, 10), (4097, 11), (6145, 11), (8193, 12), (12289, 12),
   (16385, 13), (24577, 13)]

/-- The number that a symbol and its extra bits stand for. -/
def extended (table : List (Nat × Nat)) (symbol : Nat) : Inflate Nat :=
  match table[symbol]? with
  | some (base, extra) => do return base + (← bits extra)
  | none => corrupt

/-- Literals and references up to the end of the block. -/
def coded (literals distances : PrefixCode) : Nat → Inflate Unit
  | 0 => throw .exhausted
  | budget + 1 => do
      let symbol ← literals.next
      if symbol < 256 then
        push (UInt8.ofNat symbol)
        coded literals distances budget
      else if symbol = 256 then return
      else
        let length ← extended lengthSymbols (symbol - 257)
        let distance ← extended distanceSymbols (← distances.next)
        copy distance length
        coded literals distances budget

/-- `n` bytes as they stand. -/
def verbatim : Nat → Inflate Unit
  | 0 => return
  | n + 1 => do
      push (UInt8.ofNat (← bits 8))
      verbatim n

/-- A block without compression: its length, the complement of its length, its bytes. -/
def stored : Inflate Unit := do
  align
  let length ← bits 16
  let complement ← bits 16
  if length + complement = 0xFFFF then verbatim length else corrupt

def lengthOrder : List Nat := [16, 17, 18, 0, 8, 7, 9, 6, 10, 5, 11, 4, 12, 3, 13, 2, 14, 1, 15]

/-- Three bits each for the first `n` entries of `lengthOrder`. -/
def lengthCodeLengths (n : Nat) : Inflate (List Nat) := do
  let written ← (lengthOrder.take n).mapM fun symbol => return (symbol, ← bits 3)
  return (List.range 19).map fun symbol => (written.lookup symbol).getD 0

/-- `wanted` code lengths, with runs: 16 repeats the last length, 17 and 18 stand for zeros. -/
def codeLengths (code : PrefixCode) (wanted : Nat) : Nat → Array Nat → Inflate (List Nat)
  | 0, _ => throw .exhausted
  | budget + 1, done => do
      if done.size = wanted then return done.toList
      else if wanted < done.size then corrupt
      else
        let symbol ← code.next
        if symbol < 16 then codeLengths code wanted budget (done.push symbol)
        else if symbol = 16 then
          match done.back? with
          | none => corrupt
          | some last =>
              let n ← bits 2
              codeLengths code wanted budget (done ++ List.replicate (n + 3) last)
        else if symbol = 17 then
          let n ← bits 3
          codeLengths code wanted budget (done ++ List.replicate (n + 3) 0)
        else
          let n ← bits 7
          codeLengths code wanted budget (done ++ List.replicate (n + 11) 0)

/-- A code that the format demands; anything else is a defect. -/
def codeOf (lengths : List Nat) (mayBeSparse : Bool) : Inflate PrefixCode :=
  match PrefixCode.ofLengths? lengths mayBeSparse with
  | some code => return code
  | none => corrupt

def describedCodes (budget : Nat) : Inflate (PrefixCode × PrefixCode) := do
  let literals := (← bits 5) + 257
  let distances := (← bits 5) + 1
  let lengths := (← bits 4) + 4
  if 286 < literals ∨ 30 < distances then corrupt
  else
    let lengthCode ← codeOf (← lengthCodeLengths lengths) false
    let all ← codeLengths lengthCode (literals + distances) budget #[]
    return (← codeOf (all.take literals) true, ← codeOf (all.drop literals) true)

/-- The lengths of the literal code that needs no description. -/
def fixedLiteralLengths : List Nat :=
  List.replicate 144 8 ++ List.replicate 112 9 ++ List.replicate 24 7 ++ List.replicate 8 8

def fixedDistanceLengths : List Nat := List.replicate 32 5

/-- Blocks up to the one that is marked as the last. -/
def blocks (budget : Nat) : Nat → Inflate Unit
  | 0 => throw .exhausted
  | left + 1 => do
      let last ← bit
      let form ← bits 2
      if form = 0 then stored
      else if form = 1 then
        let literals ← codeOf fixedLiteralLengths true
        let distances ← codeOf fixedDistanceLengths true
        coded literals distances budget
      else if form = 2 then
        let (literals, distances) ← describedCodes budget
        coded literals distances budget
      else corrupt
      if last = 1 then return else blocks budget left

structure Inflated where
  output : Array UInt8
  /-- How it ended; after a regular end, the first byte behind the compressed data. -/
  ending : Except InflateFault Nat

/-- Expands the compressed data that starts at byte `start` of the input. -/
def inflate (input : Array UInt8) (start : Nat) : Inflated :=
  let budget := 8 * input.size + 1
  match blocks budget budget input ⟨8 * start, #[], 0⟩ with
  | .ok _ s => ⟨s.output, .ok ((s.position + 7) / 8)⟩
  | .error .exhausted s => ⟨s.output, .error .exhausted⟩
  | .error .corrupt s => ⟨s.output.extract 0 s.delivered, .error .corrupt⟩

end VoxelSchematic.Gzip
