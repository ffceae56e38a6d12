/-!
# Slot geometry

A page of `P` bytes holds as many slots of `T` bytes as fit together with one bitmap bit each,
the bitmap being rounded up to whole bytes.
-/

namespace HeapStore.Geometry

/-- Slots on a page: each costs its bytes and one bit.  Rows of no bytes have no slots. -/
def slotCount (pageSize rowSize : Nat) : Nat :=
  if rowSize = 0 then 0 else 8 * pageSize / (8 * rowSize + 1)

/-- Bytes of the bitmap for so many slots. -/
def headerSize (slots : Nat) : Nat :=
  (slots + 7) / 8

end HeapStore.Geometry
