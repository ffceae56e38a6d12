import HeapStore.Store.Paging

/-!
# Cursors

A cursor runs over the rows of a table page by page.  It takes the rows of a page when it reaches
it, under a shared lock.  After its end, after an error or when it is closed it gives nothing until
it is rewound.
-/

namespace HeapStore

/-- A position in a scan: the rows of the current page still to come, and the page after it. -/
structure Cursor where
  table : Table
  transaction : TransactionId
  nextPage : Nat
  pending : List Row
  isOpen : Bool
  deriving Inhabited

namespace Cursor

/-- A cursor before the first row of a table. -/
def start (table : Table) (tid : TransactionId) : Cursor :=
  ⟨table, tid, 0, [], true⟩

/-- The cursor stopped; it gives nothing until it is rewound. -/
def close (cursor : Cursor) : Cursor :=
  { cursor with pending := [], isOpen := false }

/-- The cursor before the first row again. -/
def rewind (cursor : Cursor) : Cursor :=
  start cursor.table cursor.transaction

/-- The rows of page `number` of the table. -/
def pageRows (cursor : Cursor) (number : Nat) : Action (List Row) := do
  let address : PageAddress := ⟨cursor.table.id, UInt32.ofNat number⟩
  let frame ← Store.getPage cursor.transaction address .readOnly []
  return frame.page.rows

/-- The next row or error, if there is one, with the cursor after it. -/
def next (cursor : Cursor) (store : Store) :
    (Option (Except StoreError Row) × Cursor) × Store :=
  if cursor.isOpen then
    match cursor.pending with
    | row :: rest => ((some (.ok row), { cursor with pending := rest }), store)
    | [] =>
      if _more : cursor.nextPage < (store.pageCount cursor.table).toNat then
        match (cursor.pageRows cursor.nextPage).perform store with
        | (.ok rows, after) =>
          next { cursor with nextPage := cursor.nextPage + 1, pending := rows } after
        | (.error error, after) => ((some (.error error), cursor.close), after)
      else ((none, cursor.close), store)
  else ((none, cursor), store)
termination_by UInt32.size - cursor.nextPage
decreasing_by
  have bound := UInt32.toNat_lt_size (store.pageCount cursor.table)
  omega

/-- All rows that are left, up to the end or an error, which comes last. -/
def rest (cursor : Cursor) (store : Store) :
    (List (Except StoreError Row) × Cursor) × Store :=
  if cursor.isOpen then
    if _more : cursor.nextPage < (store.pageCount cursor.table).toNat then
      match (cursor.pageRows cursor.nextPage).perform store with
      | (.ok rows, after) =>
        let ((others, final), last) :=
          rest { cursor with nextPage := cursor.nextPage + 1, pending := rows } after
        ((cursor.pending.map .ok ++ others, final), last)
      | (.error error, after) =>
        ((cursor.pending.map .ok ++ [.error error], cursor.close), after)
    else ((cursor.pending.map .ok, cursor.close), store)
  else (([], cursor), store)
termination_by UInt32.size - cursor.nextPage
decreasing_by
  have bound := UInt32.toNat_lt_size (store.pageCount cursor.table)
  omega

end Cursor

end HeapStore
