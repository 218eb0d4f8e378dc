import VoxelSchematic.Gzip.Member

/-!
# Members without compression

The plainest way to write a member: blocks that hold the bytes as they are.
-/

namespace VoxelSchematic.Gzip

/-- The `width` bytes of a number, the low one first. -/
def littleEndian : Nat → Nat → List UInt8
  | 0, _ => []
  | width + 1, n => UInt8.ofNat n :: littleEndian width (n / 256)

def maxStored : Nat := 65535

/-- A block that holds bytes as they are, behind their number and its complement. -/
def storedBlock (mark : UInt8) (bytes : List UInt8) : List UInt8 :=
  mark :: (littleEndian 2 bytes.length ++ littleEndian 2 (0xFFFF - bytes.length) ++ bytes)

/-- Stored blocks for the given bytes; the last one is marked. -/
def storedBlocks (bytes : List UInt8) : List UInt8 :=
  if maxStored < bytes.length then
    storedBlock 0 (bytes.take maxStored) ++ storedBlocks (bytes.drop maxStored)
  else storedBlock 1 bytes
termination_by bytes.length
decreasing_by simp [maxStored] at *; omega

def plainHeader : List UInt8 := magic ++ [8, 0, 0, 0, 0, 0, 0, 255]

instance : Compressor where
  compress bytes :=
    (plainHeader ++ storedBlocks bytes.toList ++ littleEndian 4 (crc32 bytes).toNat
      ++ littleEndian 4 bytes.size).toArray

end VoxelSchematic.Gzip
