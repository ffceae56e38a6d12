import HeapStore.Store.Paging

/-!
# Rows of the store

A row goes into the first page of its table that has a free slot.  Pages are searched in order,
each under an exclusive lock that is given up again when the page is full and was not locked
before; when all pages are full the table grows by one.
-/

namespace HeapStore.Store

/-- Puts a row into the page of a frame. -/
def insertInto (frame : Frame) (row : Row) : Action (Frame × Row) := do
  let (placed, page) ← MonadExcept.ofExcept (frame.page.insert row)
  replacePage frame.stamp page
  return ({ frame with page := page }, placed)

/-- Looks for a free slot on `count` pages from page `number` on, and puts the row into the first
one found. -/
def insertFrom (tid : TransactionId) (table : Table) (row : Row) :
    (count number : Nat) → Action (Option (Frame × Row))
  | 0, _ => return none
  | count + 1, number => do
    let address : PageAddress := ⟨table.id, UInt32.ofNat number⟩
    let held := (← get).pool.locks.holds address tid
    let frame ← getPage tid address .readWrite []
    if 0 < frame.page.freeSlots then
      return some (← insertInto frame row)
    if !held then
      let _ ← releasePage tid address
    insertFrom tid table row count (number + 1)

/-- Adds a page of zeros to a table. -/
def growTable (table : Table) : Action PageAddress := do
  let store ← get
  let (address, content) ← MonadExcept.ofExcept
    (table.appendPage store.armed (store.tableContent table))
  set { store with disk := store.disk.write table.location content }
  return address

/-- Puts a row into a table and gives the changed frame, not yet marked as changed, and the row
with its address. -/
def placeRow (tid : TransactionId) (table : Table) (row : Row) : Action (Frame × Row) := do
  if !row.schema.compatible table.schema then
    throw (.schemaMismatch table.id)
  let count := (← get).pageCount table
  match ← insertFrom tid table row count.toNat 0 with
  | some placed => return placed
  | none =>
    let address ← growTable table
    let frame ← getPage tid address .readWrite []
    insertInto frame row

/-- Takes a row off the page that its address names and gives the changed frame, not yet marked as
changed. -/
def removeRow (tid : TransactionId) (table : Table) (row : Row) : Action Frame := do
  match row.address with
  | none => throw .missingAddress
  | some address =>
    if address.page.table ≠ table.id then
      throw (.rowNotOnPage address.page)
    let frame ← getPage tid address.page .readWrite []
    let page ← MonadExcept.ofExcept (frame.page.delete row)
    replacePage frame.stamp page
    return { frame with page := page }

/-- Records that `tid` changed the page of a frame. -/
def markDirty (tid : TransactionId) (frame : Frame) : Action Unit :=
  replacePage frame.stamp (frame.page.withOwner (some tid))

/-- Inserts a row into a table and gives it back with its address. -/
def insertRow (tid : TransactionId) (id : TableId) (row : Row) : Action Row := do
  let (frame, placed) ← placeRow tid (← table id) row
  markDirty tid frame
  return placed

/-- Deletes a row from the table that its address names. -/
def deleteRow (tid : TransactionId) (row : Row) : Action Unit := do
  match row.address with
  | none => throw .missingAddress
  | some address =>
    let frame ← removeRow tid (← table address.page.table) row
    markDirty tid frame

end HeapStore.Store
