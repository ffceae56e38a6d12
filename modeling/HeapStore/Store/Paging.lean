import HeapStore.Store.Basic

/-!
# Pages of the store

A transaction gets a page under a lock, from the cache or from the table file; a full cache first
makes another page leave.  A changed page is flushed in three steps: its images go to the log, the
log is forced, the page is written.  A page is restored by reading it again.
-/

namespace HeapStore

/-- What a transaction wants a page for. -/
inductive Access where
  | readOnly
  | readWrite
  deriving DecidableEq, Inhabited, Repr

/-- The lock that the access needs. -/
def Access.lockMode : Access → LockMode
  | .readOnly => .shared
  | .readWrite => .exclusive

namespace Store

/-! ## Getting pages -/

/-- Locks a page for `tid`. -/
def lockPage (tid : TransactionId) (address : PageAddress) (mode : LockMode) : Action Unit := do
  let store ← get
  let locks ← MonadExcept.ofExcept (store.pool.locks.acquire address tid mode)
  set (store.withLocks locks)

/-- Gives up the lock of `tid` on one page, and says whether there was one. -/
def releasePage (tid : TransactionId) (address : PageAddress) : Action Bool := do
  let store ← get
  set (store.withLocks (store.pool.locks.release address tid))
  return store.pool.locks.holds address tid

/-- Makes the oldest clean page leave the cache. -/
def evictPage (latched : List Nat) : Action Unit := do
  let store ← get
  let pool ← MonadExcept.ofExcept (store.pool.evict latched)
  set { store with pool := pool }

/-- Reads a page of a registered table from its file. -/
def readPage (address : PageAddress) : Action Page := do
  let table ← table address.table
  MonadExcept.ofExcept (table.readPage ((← get).tableContent table) address)

/-- Brings a page into the cache.  Room is made before the page is read, so a page may have left
in vain. -/
def loadPage (address : PageAddress) (latched : List Nat) : Action Frame := do
  let store ← get
  let pool ← MonadExcept.ofExcept (store.pool.makeRoom latched)
  set { store with pool := pool }
  let page ← readPage address
  let store ← get
  let (frame, pool) := store.pool.load page
  set { store with pool := pool }
  return frame

/-- Hands out a page to `tid`, locked as the access needs.  The lock stays also if the page cannot
be had. -/
def getPage (tid : TransactionId) (address : PageAddress) (access : Access) (latched : List Nat) :
    Action Frame := do
  lockPage tid address access.lockMode
  match (← get).pool.find? address with
  | some frame => return frame
  | none => loadPage address latched

/-- Changes the content of a frame. -/
def replacePage (stamp : Nat) (page : Page) : Action Unit :=
  modify fun store => { store with pool := store.pool.replace stamp page }

/-- Drops a page from the cache without writing it. -/
def discardPage (address : PageAddress) : Action Unit :=
  modify fun store => { store with pool := store.pool.discard address }

/-! ## Flushing and restoring -/

/-- Writes a page to its table file. -/
def writePage (table : Table) (page : Page) : Action Unit := do
  let store ← get
  let content ← MonadExcept.ofExcept
    (table.writePage store.armed (store.tableContent table) page)
  set { store with disk := store.disk.write table.location content }

/-- Flushes a changed page: its images to the log, then the page to its file.  After that it is
clean, and its present bytes are its former ones. -/
def flushFrame (frame : Frame) (owner : TransactionId) : Action Unit := do
  let page := frame.page
  let before ← MonadExcept.ofExcept page.beforeImage
  let _ ← logRecord owner (.update page.address before.bytes page.bytes)
  checkFailpoint flushAfterForce
  writePage (← table page.address.table) page
  replacePage frame.stamp (page.withOwner none).snapshot

/-- Flushes a page if it is cached and changed. -/
def flushPage (address : PageAddress) : Action Unit := do
  match (← get).pool.find? address with
  | none => return
  | some frame =>
    match frame.page.owner with
    | none => return
    | some owner => flushFrame frame owner

/-- Flushes the pages that `tid` changed, in the order of their addresses. -/
def flushPagesOf (tid : TransactionId) : Action Unit := do
  ((← get).pool.dirtiedBy tid).forM flushPage

/-- Flushes every changed page, in the order of their addresses. -/
def flushAll : Action Unit := do
  (inOrder PageAddress.precedes (← get).pool.cached).forM flushPage

/-- Puts the content on disk in the place of the cached content of a page. -/
def restorePage (address : PageAddress) : Action Unit := do
  match (← get).pool.find? address with
  | none => return
  | some frame => replacePage frame.stamp (← readPage address)

end Store

end HeapStore
