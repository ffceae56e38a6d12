import HeapStore.Catalog
import HeapStore.Lock
import HeapStore.Settings

/-!
# The page cache

The cache holds a bounded number of pages in the order in which they were loaded.  A page that was
changed and not yet written stays; of the others the one loaded first leaves when room is needed,
unless somebody is in the middle of changing it.  Each loaded page is a frame with a stamp of its
own.  Whoever holds a frame keeps it when the page leaves the cache, so departed frames are kept
apart; the cache never takes them back.

The locks on pages belong to the cache as well: a page is handed out only under a lock.
-/

namespace HeapStore

/-- A page that was loaded; the stamps count the loads. -/
structure Frame where
  stamp : Nat
  page : Page
  deriving Inhabited

/-- The cache: frames in it in load order, frames that left it, and the locks on pages. -/
structure Pool where
  settings : Settings
  resident : List Frame
  departed : List Frame
  nextStamp : Nat
  locks : LockTable
  deriving Inhabited

namespace Pool

/-- An empty cache over the tables of a catalog, whose page size must be that of the settings. -/
def create (settings : Settings) (catalog : Catalog) : Except StoreError Pool := do
  settings.validate
  if catalog.pageSize ≠ settings.pageSize then
    throw (.settings (.pageSizeMismatch catalog.pageSize settings.pageSize))
  return {
    settings := settings
    resident := []
    departed := []
    nextStamp := 0
    locks := LockTable.empty }

/-- The frame of a cached page. -/
def find? (pool : Pool) (address : PageAddress) : Option Frame :=
  pool.resident.find? (·.page.address = address)

/-- The frame with a stamp, in the cache or departed. -/
def frame? (pool : Pool) (stamp : Nat) : Option Frame :=
  (pool.resident ++ pool.departed).find? (·.stamp = stamp)

/-- The addresses of the cached pages in load order. -/
def cached (pool : Pool) : List PageAddress :=
  pool.resident.map (·.page.address)

/-- The page is cached. -/
def isCached (pool : Pool) (address : PageAddress) : Bool :=
  (pool.find? address).isSome

/-- No further page fits without another leaving. -/
def isFull (pool : Pool) : Bool :=
  pool.settings.capacity ≤ pool.resident.length

/-- Takes a page in behind all others, under a new stamp. -/
def load (pool : Pool) (page : Page) : Frame × Pool :=
  let frame : Frame := ⟨pool.nextStamp, page⟩
  (frame, { pool with
    resident := pool.resident ++ [frame]
    nextStamp := pool.nextStamp + 1 })

/-- Changes the content of the frame with this stamp, wherever it is. -/
def replace (pool : Pool) (stamp : Nat) (page : Page) : Pool :=
  let change (frame : Frame) : Frame := if frame.stamp = stamp then ⟨stamp, page⟩ else frame
  { pool with resident := pool.resident.map change, departed := pool.departed.map change }

/-- Moves the cached frames that `leaves` picks out of the cache. -/
def depart (pool : Pool) (leaves : Frame → Bool) : Pool :=
  { pool with
    resident := pool.resident.filter (!leaves ·)
    departed := pool.resident.filter leaves ++ pool.departed }

/-- The frame that has to leave next: the first clean one that nobody is changing. -/
def victim? (pool : Pool) (latched : List Nat) : Option Frame :=
  pool.resident.find? fun frame => !latched.contains frame.stamp && frame.page.owner.isNone

/-- Makes one page leave the cache.  `latched` are the stamps of frames that are being changed. -/
def evict (pool : Pool) (latched : List Nat) : Except StoreError Pool :=
  match pool.victim? latched with
  | some frame => .ok (pool.depart (·.stamp = frame.stamp))
  | none =>
    let inUse := pool.resident.countP (latched.contains ·.stamp)
    if inUse = 0 then .error (.allPagesDirty pool.resident.length)
    else .error (.noEvictablePage pool.resident.length inUse)

/-- Makes room for one more page, if there is none. -/
def makeRoom (pool : Pool) (latched : List Nat) : Except StoreError Pool :=
  if pool.isFull then pool.evict latched else .ok pool

/-- Drops a page from the cache, changed or not. -/
def discard (pool : Pool) (address : PageAddress) : Pool :=
  pool.depart (·.page.address = address)

/-- The cached pages that `tid` changed, in the order of their addresses. -/
def dirtiedBy (pool : Pool) (tid : TransactionId) : List PageAddress :=
  inOrder PageAddress.precedes
    ((pool.resident.filter (·.page.owner = some tid)).map (·.page.address))

end Pool

end HeapStore
