import HeapStore.Crc32
import HeapStore.Disk
import HeapStore.Failpoints
import HeapStore.Page

/-!
# Table files

A table is a file of pages of one size.  Its identity is the checksum of where the file lies, so
a file keeps it from one opening to the next.  The number of pages is that of the whole pages in
the file, as a number of 32 bits; a trailing part of a page is not counted, and the next page
overwrites it.

`readPage`, `writePage` and `appendPage` work on the content of the file.
-/

namespace HeapStore

/-- The identity of the table in the file at `location`. -/
def TableId.ofLocation (location : Location) : TableId :=
  Crc32.checksum (Text.utf8 location.render)

/-- An open table: the path under which it was opened, where its file lies, and what its pages
hold. -/
structure Table where
  id : TableId
  path : String
  location : Location
  schema : Schema
  pageSize : Nat
  deriving DecidableEq, Inhabited

namespace Table

/-- The identity of the table whose file is at an existing path. -/
def idOfPath (disk : Disk) (path : String) : Except StoreError TableId :=
  match disk.locate (Path.ofString path) with
  | .ok location => .ok (TableId.ofLocation location)
  | .error error => .error (.ofDisk error)

/-- Opens a table file, and makes it and the directories above it if they are missing. -/
def openFile (disk : Disk) (path : String) (schema : Schema) (pageSize : Nat) :
    Except StoreError Table × Disk :=
  match disk.makeParent (Path.ofString path) with
  | (.error error, made) => (.error (.ofDisk error), made)
  | (.ok (), made) =>
    match made.openFile (Path.ofString path) with
    | .error error => (.error (.ofDisk error), made)
    | .ok (location, opened) =>
      (.ok ⟨TableId.ofLocation location, path, location, schema, pageSize⟩, opened)

/-- Number of whole pages in the file, as a number of 32 bits. -/
def pageCount (table : Table) (content : Content) : UInt32 :=
  UInt32.ofNat (content.size / table.pageSize)

/-- Where a page starts in the file. -/
def offset (table : Table) (number : UInt32) : Nat :=
  number.toNat * table.pageSize

/-- Reads one page from the file. -/
def readPage (table : Table) (content : Content) (address : PageAddress) : Except StoreError Page :=
  if address.table ≠ table.id then .error (.unknownTable address.table)
  else if table.pageCount content ≤ address.number then
    .error (.pageOutOfRange address (table.pageCount content))
  else
    Page.parse address table.schema
      (content.slice (table.offset address.number) table.pageSize)

/-- Writes page bytes at the place of a page, unless the step is made to fail. -/
def writeAt (table : Table) (armed : Failpoints) (content : Content) (number : UInt32)
    (data : Bytes) : Except StoreError Content := do
  armed.check heapWritePage
  return content.splice (table.offset number) data

/-- Writes a page over an old one or right behind the last one. -/
def writePage (table : Table) (armed : Failpoints) (content : Content) (page : Page) :
    Except StoreError Content :=
  let data := page.bytes
  if data.length ≠ table.pageSize then
    .error (.malformedPage page.address (.wrongSize data.length table.pageSize))
  else if page.address.table ≠ table.id || table.pageCount content < page.address.number then
    .error (.pageOutOfRange page.address (table.pageCount content))
  else table.writeAt armed content page.address.number data

/-- Writes a page of zeros behind the last one. -/
def appendPage (table : Table) (armed : Failpoints) (content : Content) :
    Except StoreError (PageAddress × Content) := do
  let number := table.pageCount content
  let grown ← table.writeAt armed content number (Bytes.zeros table.pageSize)
  return (⟨table.id, number⟩, grown)

end Table

end HeapStore
