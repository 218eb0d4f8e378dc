/-!
# Cyclic redundancy check

The 32-bit checksum of the gzip format, with the reversed polynomial `0xEDB88320`. The register
starts with all bits set and is complemented at the end.
-/

namespace VoxelSchematic.Gzip

def crcShift (register : UInt32) : UInt32 :=
  if register &&& 1 = 1 then (register >>> 1) ^^^ 0xEDB88320 else register >>> 1

def crcStep (register : UInt32) (byte : UInt8) : UInt32 :=
  Nat.repeat crcShift 8 (register ^^^ byte.toUInt32)

def crc32 (bytes : Array UInt8) : UInt32 := ~~~(bytes.foldl crcStep 0xFFFFFFFF)

end VoxelSchematic.Gzip
