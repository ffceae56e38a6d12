import HeapStore.Store.Cursor
import HeapStore.Store.Transaction

/-!
# Operations and runs

The operations of the store as data.  A step performs one operation, a run performs a list of them
one after the other; an operation that fails does not stop the run.
-/

namespace HeapStore

/-- One operation on an open database. -/
inductive Operation where
  | begin
  | getPage (tid : TransactionId) (address : PageAddress) (access : Access) (latched : List Nat)
  | insert (tid : TransactionId) (table : TableId) (row : Row)
  | delete (tid : TransactionId) (row : Row)
  | scan (tid : TransactionId) (table : TableId)
  | commit (tid : TransactionId)
  | abort (tid : TransactionId)
  | abandon (tid : TransactionId)
  | complete (tid : TransactionId) (commit : Bool)
  | release (tid : TransactionId) (address : PageAddress)
  | evict (latched : List Nat)
  | discard (address : PageAddress)
  | flushPage (address : PageAddress)
  | flushPagesOf (tid : TransactionId)
  | flushAll
  | openTable (path name : String) (schema : Schema) (primaryKey : Option String) (pageSize : Nat)
  | loadSchema (path : String)
  | clearCatalog
  | enable (site : String)
  | disable (site : String)
  | disarm
  deriving Inhabited

/-- What an operation that succeeds gives back. -/
inductive Reply where
  | done
  | transaction (tid : TransactionId)
  | frame (frame : Frame)
  | row (row : Row)
  | found (rows : List (Except StoreError Row))
  | tables (ids : List TableId)
  | released (held : Bool)
  deriving Inhabited

/-- The rows and errors of a whole scan. -/
def Store.scan (tid : TransactionId) (id : TableId) : Action (List (Except StoreError Row)) := do
  let table ← Store.table id
  let store ← get
  let ((found, _), after) := (Cursor.start table tid).rest store
  set after
  return found

/-- Changes which failpoints are armed. -/
def Store.changeArmed (change : Failpoints → Failpoints) : Action Unit :=
  modify fun store => { store with armed := change store.armed }

namespace Operation

/-- What the operation does to the store. -/
def action : Operation → Action Reply
  | .begin => Reply.transaction <$> Store.begin
  | .getPage tid address access latched => Reply.frame <$> Store.getPage tid address access latched
  | .insert tid table row => Reply.row <$> Store.insertRow tid table row
  | .delete tid row => Store.deleteRow tid row *> pure .done
  | .scan tid table => Reply.found <$> Store.scan tid table
  | .commit tid => Store.commit tid *> pure .done
  | .abort tid => Store.abort tid *> pure .done
  | .abandon tid => Store.abandon tid *> pure .done
  | .complete tid committed => Store.complete tid committed *> pure .done
  | .release tid address => Reply.released <$> Store.releasePage tid address
  | .evict latched => Store.evictPage latched *> pure .done
  | .discard address => Store.discardPage address *> pure .done
  | .flushPage address => Store.flushPage address *> pure .done
  | .flushPagesOf tid => Store.flushPagesOf tid *> pure .done
  | .flushAll => Store.flushAll *> pure .done
  | .openTable path name schema primaryKey pageSize =>
    (fun table => Reply.tables [table.id]) <$>
      Store.openTable path name schema primaryKey pageSize
  | .loadSchema path => Reply.tables <$> Store.loadSchema path
  | .clearCatalog => Store.clearCatalog *> pure .done
  | .enable site => Store.changeArmed (·.enable site) *> pure .done
  | .disable site => Store.changeArmed (·.disable site) *> pure .done
  | .disarm => Store.changeArmed Failpoints.clear *> pure .done

end Operation

namespace Store

/-- Performs one operation. -/
def step (store : Store) (operation : Operation) : Except StoreError Reply × Store :=
  operation.action.perform store

/-- The store after some operations, whether they succeed or not. -/
def run (store : Store) (operations : List Operation) : Store :=
  operations.foldl (fun store operation => (store.step operation).2) store

end Store

end HeapStore
