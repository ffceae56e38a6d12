import HeapStore.Log
import HeapStore.Pool

/-!
# The store

The store is the state of an open database: the disk, the armed failpoints, the log, the catalog
and the page cache.  An `Action` works on the store and may fail; what it changed before it failed
stays changed.
-/

namespace HeapStore

/-- An open database. -/
structure Store where
  disk : Disk
  armed : Failpoints
  log : Log
  catalog : Catalog
  pool : Pool
  nextTransaction : TransactionId
  deriving Inhabited

/-- A computation on the store that may fail and keeps its changes when it does. -/
abbrev Action := ExceptT StoreError (StateM Store)

/-- What an action gives on a store, and the store after it. -/
def Action.perform {α : Type} (action : Action α) (store : Store) : Except StoreError α × Store :=
  (ExceptT.run action).run store

namespace Store

/-! ## Parts of the store -/

/-- The content of a table file. -/
def tableContent (store : Store) (table : Table) : Content :=
  store.disk.content table.location

/-- The content of the log file. -/
def logContent (store : Store) : Content :=
  store.disk.content store.log.location

/-- All records of the log. -/
def records (store : Store) : Except StoreError (List LogEntry) :=
  store.log.records store.logContent

/-- Number of pages of a table. -/
def pageCount (store : Store) (table : Table) : UInt32 :=
  table.pageCount (store.tableContent table)

/-- The store with other locks. -/
def withLocks (store : Store) (locks : LockTable) : Store :=
  { store with pool := { store.pool with locks := locks } }

/-- The table with this identity, if it is registered. -/
def table (id : TableId) : Action Table := do
  MonadExcept.ofExcept ((← get).catalog.table id)

/-- Fails if the failpoint is armed. -/
def checkFailpoint (site : String) : Action Unit := do
  MonadExcept.ofExcept ((← get).armed.check site)

/-! ## The log -/

/-- Writes a record to the log and gives its position. -/
def logRecord (tid : TransactionId) (record : LogRecord) : Action Lsn := do
  let store ← get
  let (lsn, log, disk) := store.log.write store.disk tid record
  set { store with log := log, disk := disk }
  return lsn

/-- Writes to the log how a transaction ended. -/
def logOutcome (tid : TransactionId) (committed : Bool) : Action Unit := do
  let _ ← logRecord tid (if committed then .commit else .abort)

/-! ## The catalog -/

/-- Opens a table file and registers it under a name. -/
def openTable (path name : String) (schema : Schema) (primaryKey : Option String)
    (pageSize : Nat) : Action Table := do
  let store ← get
  let (opened, disk) := Table.openFile store.disk path schema pageSize
  set { store with disk := disk }
  let table ← MonadExcept.ofExcept opened
  let catalog ← MonadExcept.ofExcept (store.catalog.add table name primaryKey)
  modify ({ · with catalog := catalog })
  return table

/-- Opens the tables that catalog lines define.  Their files lie in `directory` and are called
after them; the tables opened before a failure stay registered. -/
def openDefined (directory : String) : List String → Action (List TableId)
  | [] => return []
  | line :: rest => do
    let definition ← MonadExcept.ofExcept (CatalogLine.parse line)
    let table ← openTable (Path.join directory (definition.name ++ ".dat")) definition.name
      definition.schema definition.primaryKey (← get).catalog.pageSize
    let others ← openDefined directory rest
    return table.id :: others

/-- Opens the tables that a catalog file defines, with their files next to it. -/
def loadSchema (path : String) : Action (List TableId) := do
  let disk := (← get).disk
  match disk.read (Path.ofString path), disk.locate (Path.ofString path) with
  | .ok content, .ok location =>
    match Text.ofUtf8? content.toBytes with
    | some text => openDefined (Location.render location.dropLast) (CatalogLine.ofText text)
    | none => throw (.file .notUtf8)
  | .error error, _ => throw (.ofDisk error)
  | _, .error error => throw (.ofDisk error)

/-- Forgets all tables; their files stay. -/
def clearCatalog : Action Unit :=
  modify fun store => { store with catalog := store.catalog.clear }

/-! ## Opening -/

/-- Opens a database with its log at `logPath` and no tables.  Transactions are numbered on from
the largest one in the log.  The log file is made and cut before the settings are checked, so the
disk comes back also when opening fails. -/
def openAt (disk : Disk) (armed : Failpoints) (logPath : String) (settings : Settings) :
    Except StoreError Store × Disk :=
  match Log.openFile disk logPath with
  | (.error error, made) => (.error error, made)
  | (.ok log, made) =>
    let catalog := Catalog.empty settings.pageSize
    match Pool.create settings catalog with
    | .error error => (.error error, made)
    | .ok pool =>
      (.ok {
        disk := made
        armed := armed
        log := log
        catalog := catalog
        pool := pool
        nextTransaction := match log.recovered with
          | none => 1
          | some largest => largest + 1 }, made)

end Store

end HeapStore
