import VoxelSchematic.Tag.Basic
import VoxelSchematic.Tag.Error
import VoxelSchematic.Wire.BigEndian

/-!
# Reading tags

A `Reader` takes bytes off the front of a sequence and stops at the point where it finds a
fault; what it had taken by then stays taken.

* `Wire.decode` reads one named tag.
* `Wire.transcribe` reads the same bytes and keeps every field, also where a name comes back.
* `Wire.maxDepth` bounds the nesting of lists and compounds, the root included. The bound is
  checked on entry, before anything inside is read.
* A compound that repeats a key keeps the first slot and the last value.
-/

namespace VoxelSchematic.Wire

open Ieee

/-- Reads from the front of a byte sequence; also a failure tells what is left. -/
abbrev Reader (α : Type) := EStateM TagError (List UInt8) α

/-- How a named tag enters the compound that is being read. -/
abbrev Join := Compound → String → Tag → Compound

/-- Lists and compounds may be nested this deep. -/
def maxDepth : Nat := 512

namespace Reader

def bytes (n : Nat) : Reader (List UInt8) := fun input =>
  let (front, rest) := input.splitAt n
  if front.length = n then .ok front rest else .error .truncated rest

def number (width : Nat) : Reader Nat := do
  return BigEndian.decode (← bytes width)

def int8 : Reader Int8 := do return (UInt8.ofNat (← number 1)).toInt8

def int16 : Reader Int16 := do return (UInt16.ofNat (← number 2)).toInt16

def int32 : Reader Int32 := do return (UInt32.ofNat (← number 4)).toInt32

def int64 : Reader Int64 := do return (UInt64.ofNat (← number 8)).toInt64

def binary32 : Reader Binary32 := do return ⟨UInt32.ofNat (← number 4)⟩

def binary64 : Reader Binary64 := do return ⟨UInt64.ofNat (← number 8)⟩

def kind : Reader TagType := do
  let id := UInt8.ofNat (← number 1)
  match TagType.ofId? id with
  | some kind => return kind
  | none => throw (.invalidTagType id)

/-- A length field of sixteen bits and that many bytes of text. -/
def text : Reader String := do
  let length ← number 2
  let encoded ← bytes length
  match String.fromUTF8? ⟨encoded.toArray⟩ with
  | some text => return text
  | none => throw .invalidUtf8

/-- A length field of thirty-two bits, which may not be negative. -/
def length : Reader Nat := do
  let raw ← int32
  if raw < 0 then throw (.negativeLength raw) else return raw.toNatClampNeg

/-- `n` items in a row, appended to those already read. -/
def manyFrom {α : Type} (item : Reader α) : Nat → Array α → Reader (Array α)
  | 0, done => return done
  | n + 1, done => do
      let next ← item
      manyFrom item n (done.push next)

def many {α : Type} (item : Reader α) (n : Nat) : Reader (Array α) := manyFrom item n #[]

end Reader

open Reader

/-- The header of a list and its elements. -/
def list (element : TagType → Reader Tag) : Reader TagList := do
  let kind ← Reader.kind
  let raw ← int32
  if raw < 0 then throw (.negativeLength raw)
  else if kind = .terminator ∧ 0 < raw then throw (.nonEmptyTerminatorList raw)
  else
    let items ← many (element kind) raw.toNatClampNeg
    return ⟨kind, items.toList⟩

/-- Named tags up to the terminator, put into `done`. The first number bounds how many there
are; the number of bytes at hand is enough, since each takes some. -/
def fieldsFrom (join : Join) (value : TagType → Reader Tag) : Nat → Compound → Reader Compound
  | 0, _ => throw .truncated
  | budget + 1, done => do
      let kind ← Reader.kind
      if kind = .terminator then return done
      else
        let name ← text
        let tag ← value kind
        fieldsFrom join value budget (join done name tag)

/-- The value of a tag of a known type, with `levels` of nesting left. -/
def payload (join : Join) (budget : Nat) : Nat → TagType → Reader Tag
  | _, .terminator => return .terminator
  | _, .byte => return .byte (← int8)
  | _, .short => return .short (← int16)
  | _, .int => return .int (← int32)
  | _, .long => return .long (← int64)
  | _, .float => return .float (← binary32)
  | _, .double => return .double (← binary64)
  | _, .byteArray => do
      let n ← length
      return .byteArray (← bytes n).toArray
  | _, .string => return .string (← text)
  | 0, .list => throw .depthLimitExceeded
  | levels + 1, .list => return .list (← list (payload join budget levels))
  | 0, .compound => throw .depthLimitExceeded
  | levels + 1, .compound =>
      return .compound (← fieldsFrom join (payload join budget levels) budget .empty)
  | _, .intArray => do
      let n ← length
      return .intArray (← many int32 n)
  | _, .longArray => do
      let n ← length
      return .longArray (← many int64 n)

/-- A named tag; a lone terminator has no name on the wire. -/
def named (join : Join) (budget : Nat) : Reader (String × Tag) := do
  let kind ← Reader.kind
  if kind = .terminator then return ("", .terminator)
  else
    let name ← text
    let tag ← payload join budget maxDepth kind
    return (name, tag)

/-- Reads one named tag, with a budget that the input cannot use up. -/
def decodeWith (join : Join) : Reader (String × Tag) := fun input =>
  named join (input.length + 1) input

def decode : Reader (String × Tag) := decodeWith OrderedMap.insert

/-- Reads one named tag with all its fields as they stand, also those that a later field of the
same name overrides. -/
def transcribe : Reader (String × Tag) := decodeWith OrderedMap.append

end VoxelSchematic.Wire
