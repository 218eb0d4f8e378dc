import VoxelSchematic.Gzip.Checksum
import VoxelSchematic.Gzip.Inflate

/-!
# Gzip members

A member is a header, compressed data and a trailer with the checksum and the length of what
was compressed.

* `Gzip.expand` gives the bytes that can be read from a member and what is met behind them.
  The trailer is looked at only there, so a reader that needs no more bytes never sees a bad one.
* `Gzip.Compressor` is what writes a member. There are many ways to compress, and a reader does not
  see which one was taken.
-/

namespace VoxelSchematic.Gzip

def magic : List UInt8 := [0x1f, 0x8b]

/-- What a reader meets behind the last byte that it can have. -/
inductive Ending where
  /-- Nothing: the data is over, as it should be or too early. -/
  | exhausted
  | corrupt
deriving Repr, DecidableEq

/-- The bytes that can be read, and what comes behind them. -/
structure Expanded where
  bytes : Array UInt8
  ending : Ending

/-! ## Header -/

def maxHeaderText : Nat := 65535

def hasFlag (flags : UInt8) (bit : Nat) : Bool := (flags.toNat >>> bit) % 2 = 1

/-- The position behind a text that a zero byte ends. -/
def skipText (input : Array UInt8) (start : Nat) : Except Ending Nat :=
  match (input.toList.drop start).findIdx? (· == 0) with
  | some n => if n ≤ maxHeaderText then .ok (start + n + 1) else .error .corrupt
  | none => if input.size - start ≤ maxHeaderText then .error .exhausted else .error .corrupt

/-- A number of sixteen bits, the low byte first. -/
def word16 (input : Array UInt8) (offset : Nat) : Except Ending Nat :=
  match input[offset]?, input[offset + 1]? with
  | some low, some high => .ok (low.toNat + 256 * high.toNat)
  | _, _ => .error .exhausted

def word32 (input : Array UInt8) (offset : Nat) : Except Ending Nat := do
  let low ← word16 input offset
  let high ← word16 input (offset + 2)
  return low + 65536 * high

/-- The position behind the header: fixed fields, then an extra field, a name, a comment and a
checksum of the header, each where a flag announces it. -/
def skipHeader (input : Array UInt8) : Except Ending Nat := do
  if input.size < 10 then throw .exhausted
  let flags := input.getD 3 0
  if (input.toList.take 2 != magic) || input.getD 2 0 != 8 || 32 ≤ flags.toNat then throw .corrupt
  let mut position := 10
  if hasFlag flags 2 then
    let length ← word16 input position
    position := position + 2 + length
    if input.size < position then throw .exhausted
  if hasFlag flags 3 then position ← skipText input position
  if hasFlag flags 4 then position ← skipText input position
  if hasFlag flags 1 then
    let stated ← word16 input position
    if stated != (crc32 (input.extract 0 position)).toNat % 65536 then throw .corrupt
    position := position + 2
  return position

/-! ## Reading -/

/-- What the trailer at a position says about the bytes in front of it. -/
def trailer (input : Array UInt8) (position : Nat) (bytes : Array UInt8) : Ending :=
  match word32 input position, word32 input (position + 4) with
  | .ok checksum, .ok length =>
      let fits := checksum = (crc32 bytes).toNat ∧ length = bytes.size % UInt32.size
      if fits then .exhausted else .corrupt
  | _, _ => .exhausted

def expand (input : Array UInt8) : Expanded :=
  match skipHeader input with
  | .error ending => ⟨#[], ending⟩
  | .ok start =>
      let inflated := inflate input start
      match inflated.ending with
      | .ok position => ⟨inflated.output, trailer input position inflated.output⟩
      | .error .exhausted => ⟨inflated.output, .exhausted⟩
      | .error .corrupt => ⟨inflated.output, .corrupt⟩

/-! ## Writing -/

/-- A way to compress. Which bytes make up a member is left to it. -/
class Compressor where
  /-- A member that holds the given bytes. -/
  compress : Array UInt8 → Array UInt8

end VoxelSchematic.Gzip
