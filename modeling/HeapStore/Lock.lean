import HeapStore.Error

/-!
# Page locks

A page is locked by several transactions in shared mode or by one in exclusive mode.  A request
is granted at once or refused, and a refusal changes nothing.  The holder of an exclusive lock is
granted whatever it asks for and keeps the exclusive lock; a shared lock becomes exclusive only
for its sole holder.  A page without holders has no entry in the table.
-/

namespace HeapStore

/-- How a page is locked. -/
inductive LockMode where
  | shared
  | exclusive
  deriving DecidableEq, Inhabited, Repr

/-- The holders of a lock: some in shared mode, in the order in which they were granted it, or one
in exclusive mode. -/
inductive PageLock where
  | shared (holders : List TransactionId)
  | exclusive (holder : TransactionId)
  deriving DecidableEq, Inhabited

namespace PageLock

/-- A lock with one holder. -/
def single (holder : TransactionId) : LockMode → PageLock
  | .shared => .shared [holder]
  | .exclusive => .exclusive holder

/-- The mode in which `tid` holds the lock. -/
def mode? (lock : PageLock) (tid : TransactionId) : Option LockMode :=
  match lock with
  | .shared holders => if tid ∈ holders then some .shared else none
  | .exclusive holder => if holder = tid then some .exclusive else none

/-- All holders with their mode, in the order in which they were granted it. -/
def holders : PageLock → List (TransactionId × LockMode)
  | .shared holders => holders.map (·, .shared)
  | .exclusive holder => [(holder, .exclusive)]

/-- The lock after a request that is granted; none if the request has to be refused. -/
def request? (lock : PageLock) (tid : TransactionId) (mode : LockMode) : Option PageLock :=
  match lock, mode with
  | .exclusive holder, _ => if holder = tid then some lock else none
  | .shared holders, .shared =>
    if tid ∈ holders then some lock else some (.shared (holders ++ [tid]))
  | .shared holders, .exclusive => if holders = [tid] then some (.exclusive tid) else none

/-- The lock without `tid`; none if nobody else holds it. -/
def without? (lock : PageLock) (tid : TransactionId) : Option PageLock :=
  match lock with
  | .exclusive holder => if holder = tid then none else some lock
  | .shared holders =>
    match holders.filter (· ≠ tid) with
    | [] => none
    | rest => some (.shared rest)

end PageLock

/-- The locks of all pages that have any. -/
structure LockTable where
  entries : List (PageAddress × PageLock)
  deriving Inhabited

namespace LockTable

/-- No page is locked. -/
def empty : LockTable :=
  ⟨[]⟩

/-- The lock on a page. -/
def lock? (table : LockTable) (page : PageAddress) : Option PageLock :=
  table.entries.lookup page

/-- Number of locked pages. -/
def size (table : LockTable) : Nat :=
  table.entries.length

/-- One attempt to lock `page` for `tid`: the table after it, or none if the lock is refused. -/
def acquire? (table : LockTable) (page : PageAddress) (tid : TransactionId) (mode : LockMode) :
    Option LockTable :=
  match table.lock? page with
  | none => some ⟨table.entries ++ [(page, .single tid mode)]⟩
  | some lock =>
    (lock.request? tid mode).map fun granted =>
      ⟨table.entries.map fun entry => if entry.1 = page then (page, granted) else entry⟩

/-- Locks `page` for `tid`.  Nothing else happens while the request waits, so that a request
refused at once is refused for good. -/
def acquire (table : LockTable) (page : PageAddress) (tid : TransactionId) (mode : LockMode) :
    Except StoreError LockTable :=
  match table.acquire? page tid mode with
  | some granted => .ok granted
  | none => .error (.lockTimeout tid page)

/-- The mode in which `tid` holds `page`. -/
def mode? (table : LockTable) (page : PageAddress) (tid : TransactionId) : Option LockMode :=
  (table.lock? page).bind (·.mode? tid)

/-- `tid` holds a lock on `page`. -/
def holds (table : LockTable) (page : PageAddress) (tid : TransactionId) : Bool :=
  (table.mode? page tid).isSome

/-- All holders of `page` with their mode. -/
def holders (table : LockTable) (page : PageAddress) : List (TransactionId × LockMode) :=
  match table.lock? page with
  | some lock => lock.holders
  | none => []

/-- The pages that `tid` holds. -/
def pagesOf (table : LockTable) (tid : TransactionId) : List PageAddress :=
  (table.entries.filter fun entry => (entry.2.mode? tid).isSome).map (·.1)

/-- Gives up the lock of `tid` on `page`, if it has one. -/
def release (table : LockTable) (page : PageAddress) (tid : TransactionId) : LockTable :=
  ⟨table.entries.filterMap fun entry =>
    if entry.1 = page then (entry.2.without? tid).map (page, ·) else some entry⟩

/-- Gives up every lock of `tid`. -/
def releaseAll (table : LockTable) (tid : TransactionId) : LockTable :=
  ⟨table.entries.filterMap fun entry => (entry.2.without? tid).map (entry.1, ·)⟩

end LockTable

end HeapStore
