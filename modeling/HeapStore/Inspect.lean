import HeapStore.Store.Cursor
import HeapStore.Store.Transaction

/-!
# Inspection

Inspection opens the tables of a catalog file and counts their pages and rows, table by table in
the order of their names, in one transaction.
-/

namespace HeapStore

/-- What inspection finds in one table. -/
structure TableSummary where
  name : String
  table : TableId
  pages : UInt32
  rows : Nat
  deriving DecidableEq, Inhabited

namespace TableSummary

/-- The columns of the summary as text. -/
def columns (summary : TableSummary) : List String :=
  [summary.name, toString summary.table, s!"{summary.pages} pages", s!"{summary.rows} tuples"]

/-- The summary on a line, with tabulators between its columns. -/
def render (summary : TableSummary) : String :=
  "\t".intercalate summary.columns

end TableSummary

namespace Store

/-- The rows of a table as `tid` sees them; the first error ends the scan. -/
def scanAll (tid : TransactionId) (table : Table) : Action (List Row) := do
  let store ← get
  let ((found, _), after) := (Cursor.start table tid).rest store
  set after
  MonadExcept.ofExcept (found.mapM id)

/-- Counts the pages and rows of one table. -/
def summarize (tid : TransactionId) (id : TableId) : Action TableSummary := do
  let entry ← MonadExcept.ofExcept ((← get).catalog.entry id)
  let rows ← scanAll tid entry.table
  return ⟨entry.name, id, (← get).pageCount entry.table, rows.length⟩

/-- Counts the pages and rows of all tables in one transaction, which commits at the end.  If a
table cannot be counted the transaction is abandoned. -/
def summarizeAll : Action (List TableSummary) := do
  let tid ← begin
  let summaries ← try (← get).catalog.tableIds.mapM (summarize tid) catch error => do
    abandon tid
    throw error
  commit tid
  return summaries

end Store

/-- Opens a database over a catalog file and counts the pages and rows of its tables. -/
def inspect (disk : Disk) (armed : Failpoints) (catalogPath logPath : String)
    (settings : Settings) : Except StoreError (List TableSummary) × Disk :=
  match Store.openAt disk armed logPath settings with
  | (.error error, after) => (.error error, after)
  | (.ok store, _) =>
    let work : Action (List TableSummary) := do
      let _ ← Store.loadSchema catalogPath
      Store.summarizeAll
    let (found, after) := work.perform store
    (found, after.disk)

end HeapStore
