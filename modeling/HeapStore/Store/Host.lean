import HeapStore.Store.Basic

/-!
# Databases on one disk

On the disk of a host, databases are opened one after the other, and at most one is in use.  The
ones used before are kept: a cursor that was made on one of them goes on reading from its cache
and under its locks.  All of them see the disk and the failpoints as they are now.
-/

namespace HeapStore

/-- A disk, the armed failpoints, the databases opened so far, and which of them is in use. -/
structure Host where
  disk : Disk
  armed : Failpoints
  stores : List Store
  inUse : Option Nat
  deriving Inhabited

namespace Host

/-- A database as it is now. -/
def store? (host : Host) (number : Nat) : Option Store :=
  host.stores[number]?.map fun store => { store with disk := host.disk, armed := host.armed }

/-- The database in use. -/
def current? (host : Host) : Option Store :=
  host.inUse.bind host.store?

/-- Lets a database work, if there is one with this number. -/
def run {α : Type} (host : Host) (number : Option Nat) (work : Store → α × Store) :
    Option α × Host :=
  match number, number.bind host.store? with
  | some number, some store =>
    let (result, after) := work store
    (some result, { host with
      disk := after.disk
      armed := after.armed
      stores := host.stores.set number after })
  | _, _ => (none, host)

/-- Opens a database and takes it into use. -/
def openStore (host : Host) (logPath : String) (settings : Settings) :
    Except StoreError Store × Host :=
  match Store.openAt host.disk host.armed logPath settings with
  | (.error error, made) => (.error error, { host with disk := made })
  | (.ok store, made) =>
    (.ok store, { host with
      disk := made
      stores := host.stores ++ [store]
      inUse := some host.stores.length })

/-- Takes the database out of use. -/
def close (host : Host) : Host :=
  { host with inUse := none }

end Host

end HeapStore
