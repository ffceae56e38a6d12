import HeapStore.Bitmap
import HeapStore.Error
import HeapStore.Page.Geometry
import HeapStore.Row

/-!
# Pages

A page is a bitmap, then slots of equal width, then zeros up to the page size.  In memory a slot
holds a row or nothing, so a slot is in use exactly if a row is in it; the bits of the bitmap that
belong to no slot are kept as they were read.  A page also remembers which transaction changed it
and the bytes it had when it was last read or written.

`Page.parse` reads a page and `Page.bytes` writes it; `Page.insert` takes the lowest free slot and
`Page.delete` clears the slot that a row's address names.
-/

namespace HeapStore

/-- A page in memory.  `spare` holds the bitmap bits after the last slot, `owner` the transaction
that changed the page, `before` the bytes of the page as last read or written. -/
structure Page where
  address : PageAddress
  schema : Schema
  size : Nat
  slots : List (Option Row)
  spare : List Bool
  owner : Option TransactionId
  before : Bytes
  deriving DecidableEq, Inhabited

namespace Page

/-! ## Reading -/

/-- The row in one slot, given its bitmap bit and its bytes. -/
def parseSlot (address : PageAddress) (schema : Schema) (used : Bool) (cell : Bytes) (slot : Nat) :
    Except StoreError (Option Row) :=
  if used then
    match decodeFields? schema.types cell with
    | some fields => .ok (some ⟨schema, fields, some ⟨address, slot⟩⟩)
    | none => .error (.malformedPage address (.invalidRow slot))
  else .ok none

/-- Reads a page whose size is the length of `data`.  The bytes of free slots and of the padding
are not looked at. -/
def parse (address : PageAddress) (schema : Schema) (data : Bytes) : Except StoreError Page := do
  let count := Geometry.slotCount data.length schema.rowSize
  if count = 0 then
    throw (.malformedPage address (.rowsDoNotFit schema.rowSize data.length))
  let header := Geometry.headerSize count
  let bits := Bitmap.unpack (data.take header)
  let cells := blocks schema.rowSize count (data.drop header)
  let slots ← (bits.zip cells).zipIdx.mapM fun ((used, cell), slot) =>
    parseSlot address schema used cell slot
  return {
    address := address
    schema := schema
    size := data.length
    slots := slots
    spare := bits.drop count
    owner := none
    before := data }

/-- A page of zeros: all slots are free. -/
def empty (address : PageAddress) (schema : Schema) (size : Nat) : Except StoreError Page :=
  parse address schema (Bytes.zeros size)

/-! ## Looking -/

/-- Number of slots. -/
def slotCount (page : Page) : Nat :=
  page.slots.length

/-- Bytes of the bitmap. -/
def headerSize (page : Page) : Nat :=
  Geometry.headerSize page.slotCount

/-- The row in a slot. -/
def row? (page : Page) (slot : Nat) : Option Row :=
  page.slots[slot]?.join

/-- The slot exists and holds a row. -/
def isUsed (page : Page) (slot : Nat) : Bool :=
  (page.row? slot).isSome

/-- The stored rows in slot order. -/
def rows (page : Page) : List Row :=
  page.slots.filterMap id

/-- Number of slots in use. -/
def usedSlots (page : Page) : Nat :=
  page.slots.countP Option.isSome

/-- Number of free slots. -/
def freeSlots (page : Page) : Nat :=
  page.slots.countP Option.isNone

/-! ## Writing -/

/-- The bitmap: a set bit for each slot in use, then the spare bits as they were read. -/
def header (page : Page) : Bytes :=
  Bitmap.pack (page.slots.map Option.isSome ++ page.spare)

/-- The bytes of one slot; a free slot is all zeros. -/
def slotBytes (schema : Schema) : Option Row → Bytes
  | some row => row.encode
  | none => Bytes.zeros schema.rowSize

/-- The bytes of the page, padded with zeros to its size. -/
def bytes (page : Page) : Bytes :=
  let body := page.header ++ page.slots.flatMap (slotBytes page.schema)
  body ++ Bytes.zeros (page.size - body.length)

/-- Same address and same bytes; who changed the page and its former bytes do not count. -/
def same (a b : Page) : Bool :=
  a.address = b.address && a.bytes = b.bytes

/-! ## Changing -/

/-- Puts a row into the lowest free slot.  The row comes back with its address there. -/
def insert (page : Page) (row : Row) : Except StoreError (Row × Page) := do
  if !row.schema.compatible page.schema then
    throw (.schemaMismatch page.address.table)
  match page.slots.findIdx? Option.isNone with
  | none => throw (.pageFull page.address)
  | some slot =>
    let placed := { row with address := some ⟨page.address, slot⟩ }
    return (placed, { page with slots := page.slots.set slot (some placed) })

/-- Inserts a row until the page refuses it, and counts how often it was taken. -/
def fill (page : Page) (row : Row) : Page × Nat :=
  (List.range page.slotCount).foldl
    (fun (page, count) _ =>
      match page.insert row with
      | .ok (_, fuller) => (fuller, count + 1)
      | .error _ => (page, count))
    (page, 0)

/-- Clears the slot that the row's address names. -/
def delete (page : Page) (row : Row) : Except StoreError Page := do
  match row.address with
  | none => throw .missingAddress
  | some address =>
    if address.page ≠ page.address then
      throw (.rowNotOnPage page.address)
    if !page.isUsed address.slot then
      throw (.slotEmpty page.address address.slot)
    return { page with slots := page.slots.set address.slot none }

/-- Records who changed the page; `none` makes it clean. -/
def withOwner (page : Page) (owner : Option TransactionId) : Page :=
  { page with owner := owner }

/-- Takes the present bytes as the former ones. -/
def snapshot (page : Page) : Page :=
  { page with before := page.bytes }

/-- The page as it was when its former bytes were taken. -/
def beforeImage (page : Page) : Except StoreError Page :=
  parse page.address page.schema page.before

end Page

end HeapStore
