import VoxelSchematic.Tag.Basic
import VoxelSchematic.Tag.Error
import VoxelSchematic.Wire.BigEndian

/-!
# Writing tags

A `Writer` appends to what has been written. The only fault is a string too long for its
length field; it is found before the field is written, and everything that precedes the string
has been written by then.

* `Wire.encode` writes one named tag.
* `Wire.image` is the result on an empty output: the bytes, and the fault if there is one.
-/

namespace VoxelSchematic.Wire

/-- Appends to the bytes written so far. -/
abbrev Writer := EStateM TagError (Array UInt8) Unit

/-- The longest string that a length field can state, in bytes. -/
def maxTextBytes : Nat := 65535

namespace Writer

def put (bytes : List UInt8) : Writer := fun out => .ok () (out ++ bytes)

def number (width n : Nat) : Writer := put (BigEndian.encode width n)

def kind (k : TagType) : Writer := put [k.id]

def text (s : String) : Writer := do
  if maxTextBytes < s.utf8ByteSize then throw (.stringTooLong s.utf8ByteSize)
  number 2 s.utf8ByteSize
  put s.toUTF8.data.toList

/-- The name of a tag of a type; terminators have none. -/
def name (k : TagType) (s : String) : Writer :=
  if k = .terminator then pure () else text s

end Writer

open Writer

mutual

def payloadOf : Tag → Writer
  | .terminator => pure ()
  | .byte v => number 1 v.toUInt8.toNat
  | .short v => number 2 v.toUInt16.toNat
  | .int v => number 4 v.toUInt32.toNat
  | .long v => number 8 v.toUInt64.toNat
  | .float v => number 4 v.bits.toNat
  | .double v => number 8 v.bits.toNat
  | .byteArray v => do
      number 4 v.size
      put v.toList
  | .string v => text v
  | .list ⟨element, items⟩ => do
      kind element
      number 4 items.length
      itemsOf items
  | .compound ⟨entries⟩ => do
      fieldsOf entries
      kind .terminator
  | .intArray v => do
      number 4 v.size
      v.toList.forM fun n => number 4 n.toUInt32.toNat
  | .longArray v => do
      number 4 v.size
      v.toList.forM fun n => number 8 n.toUInt64.toNat

/-- The values of list elements, which carry neither type nor name. -/
def itemsOf : List Tag → Writer
  | [] => pure ()
  | tag :: rest => do
      payloadOf tag
      itemsOf rest

/-- The named tags of a compound, without its terminator. -/
def fieldsOf : List (String × Tag) → Writer
  | [] => pure ()
  | (key, tag) :: rest => do
      kind tag.kind
      name tag.kind key
      payloadOf tag
      fieldsOf rest

end

def encode (key : String) (tag : Tag) : Writer := do
  kind tag.kind
  name tag.kind key
  payloadOf tag

/-- What a writer leaves on an empty output. -/
structure Image where
  bytes : Array UInt8
  fault : Option TagError
deriving Repr, DecidableEq

/-- The bytes that a writer produces, up to its fault if it meets one. -/
def Image.of (w : Writer) : Image :=
  match w #[] with
  | .ok _ bytes => ⟨bytes, none⟩
  | .error fault bytes => ⟨bytes, some fault⟩

def image (key : String) (tag : Tag) : Image := .of (encode key tag)

end VoxelSchematic.Wire
