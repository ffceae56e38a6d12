import HeapStore.Catalog.Line
import HeapStore.Sorting
import HeapStore.Table

/-!
# The catalog

The catalog lists the open tables.  Each entry has a name and a table; no two entries share a
name, and no two share a table identity.  A table that is added takes the place of the entries
that have its name or its identity.
-/

namespace HeapStore

/-- A registered table. -/
structure CatalogEntry where
  name : String
  primaryKey : Option String
  table : Table
  deriving DecidableEq, Inhabited

/-- The registered tables, and the page size that all of them have. -/
structure Catalog where
  pageSize : Nat
  entries : List CatalogEntry
  deriving Inhabited

namespace Catalog

/-- A catalog without tables. -/
def empty (pageSize : Nat) : Catalog :=
  ⟨pageSize, []⟩

/-- The entry of a table identity. -/
def entry? (catalog : Catalog) (id : TableId) : Option CatalogEntry :=
  catalog.entries.find? (·.table.id = id)

/-- The entry of a table identity, or the error that there is none. -/
def entry (catalog : Catalog) (id : TableId) : Except StoreError CatalogEntry :=
  match catalog.entry? id with
  | some entry => .ok entry
  | none => .error (.unknownTable id)

/-- The table with this identity. -/
def table (catalog : Catalog) (id : TableId) : Except StoreError Table :=
  (catalog.entry id).map (·.table)

/-- The identity of the table with this name. -/
def idOf (catalog : Catalog) (name : String) : Except StoreError TableId :=
  match catalog.entries.find? (·.name = name) with
  | some entry => .ok entry.table.id
  | none => .error (.unknownTableName name)

/-- The entries in the order of their names. -/
def sorted (catalog : Catalog) : List CatalogEntry :=
  inOrder (fun a b => decide (a.name ≤ b.name)) catalog.entries

/-- The identities of all tables in the order of their names. -/
def tableIds (catalog : Catalog) : List TableId :=
  catalog.sorted.map (·.table.id)

/-- Registers a table.  Its page size must be that of the catalog, and an entry with its identity
must be of the same file.

Files are told apart by the locations that their paths led to when the tables were opened.  The
canonical path of an open table is taken to be fixed: its file is neither moved nor removed, and a
relative path is not followed from another working directory later. -/
def add (catalog : Catalog) (table : Table) (name : String) (primaryKey : Option String) :
    Except StoreError Catalog :=
  if table.pageSize ≠ catalog.pageSize then
    .error (.catalog (.pageSizeMismatch name table.pageSize catalog.pageSize))
  else
    match (catalog.entry? table.id).filter (·.table.location ≠ table.location) with
    | some existing =>
      .error (.catalog (.idCollision table.id table.path existing.table.path))
    | none =>
      let others := catalog.entries.filter fun old =>
        old.name ≠ name && old.table.id ≠ table.id
      .ok { catalog with entries := others ++ [⟨name, primaryKey, table⟩] }

/-- Forgets all tables. -/
def clear (catalog : Catalog) : Catalog :=
  { catalog with entries := [] }

end Catalog

end HeapStore
