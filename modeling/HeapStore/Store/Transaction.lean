import HeapStore.Store.Rows

/-!
# Transactions

A transaction begins with a number of its own and ends by commit or abort.  Commit flushes the
pages it changed, abort restores them; then its locks are given up and the outcome is logged.  A
transaction whose ending fails is abandoned: it is aborted once more, and if that fails as well it
is left as it is.
-/

namespace HeapStore.Store

/-- Starts a transaction. -/
def begin : Action TransactionId := do
  let store ← get
  set { store with nextTransaction := store.nextTransaction + 1 }
  return store.nextTransaction

/-- Flushes or restores the pages that `tid` changed, and gives up its locks.  If a page fails, the
pages after it and all locks stay as they are. -/
def complete (tid : TransactionId) (commit : Bool) : Action Unit := do
  let changed := (← get).pool.dirtiedBy tid
  changed.forM fun address => if commit then flushPage address else restorePage address
  modify fun store => store.withLocks (store.pool.locks.releaseAll tid)

/-- Ends a transaction one way or the other, and logs the outcome. -/
def finish (tid : TransactionId) (commit : Bool) : Action Unit := do
  complete tid commit
  logOutcome tid commit

/-- Aborts a transaction whose holder has gone; a failure is passed over. -/
def abandon (tid : TransactionId) : Action Unit :=
  try finish tid false catch _ => return

/-- Ends a transaction, and abandons it if that fails. -/
def endWith (tid : TransactionId) (commit : Bool) : Action Unit :=
  try finish tid commit catch error => do
    abandon tid
    throw error

/-- Commits a transaction. -/
def commit (tid : TransactionId) : Action Unit :=
  endWith tid true

/-- Aborts a transaction. -/
def abort (tid : TransactionId) : Action Unit :=
  endWith tid false

end HeapStore.Store
