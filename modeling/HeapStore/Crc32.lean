import HeapStore.Bytes

/-!
# The CRC-32 checksum

The reflected cyclic redundancy check with polynomial `0xEDB88320`, all bits set at the start and
inverted at the end.
-/

namespace HeapStore.Crc32

/-- One step of the division: the bit that falls out decides whether the polynomial is added. -/
def shift (crc : UInt32) : UInt32 :=
  if crc &&& 1 = 1 then (crc >>> 1) ^^^ 0xEDB88320 else crc >>> 1

/-- Takes in one byte, least significant bit first. -/
def update (crc : UInt32) (byte : UInt8) : UInt32 :=
  shift <| shift <| shift <| shift <| shift <| shift <| shift <| shift <| crc ^^^ byte.toUInt32

/-- The checksum of a byte string. -/
def checksum (bytes : Bytes) : UInt32 :=
  bytes.foldl update 0xFFFFFFFF ^^^ 0xFFFFFFFF

end HeapStore.Crc32
