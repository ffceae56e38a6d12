import HeapStore.Environment
import HeapStore.Error
import HeapStore.Text.Blank
import HeapStore.Text.Numeral

/-!
# Settings

The settings of the page cache and of lock waits.  They start from defaults, over which variables
of the environment are laid; a cache holds at least one page and a page has 1 to 2^20 bytes.
-/

namespace HeapStore

/-- Settings of the cache and of lock waits; times are in milliseconds. -/
structure Settings where
  capacity : Nat
  pageSize : Nat
  lockTimeout : Nat
  lockJitter : Nat
  lockPoll : Nat
  deriving DecidableEq, Inhabited, Repr

namespace Settings

/-- The settings where nothing else is said. -/
def standard : Settings where
  capacity := 50
  pageSize := 4096
  lockTimeout := 1000
  lockJitter := 2000
  lockPoll := 1

/-- Refuses a cache without pages and page sizes out of range. -/
def validate (settings : Settings) : Except StoreError Unit :=
  if settings.capacity = 0 then .error (.settings .noCapacity)
  else if settings.pageSize = 0 || maxPageSize < settings.pageSize then
    .error (.settings (.pageSizeOutOfRange settings.pageSize))
  else .ok ()

/-- The number below 2^64 that a variable is set to, blanks around it aside; `standard` if it is
not set. -/
def number (env : Environment) (name : String) (standard : Nat) : Except StoreError Nat :=
  match env.text? name with
  | none => .ok standard
  | some value =>
    match Text.readNumeral UInt64.size (Text.trim value.toList) with
    | some n => .ok n
    | none => .error (.settings (.invalidValue name value))

/-- The settings that the environment asks for.  Variables are read in the order of the fields,
and the settings are checked at the end. -/
def ofEnvironment (env : Environment) : Except StoreError Settings := do
  let settings : Settings := {
    capacity := ← number env "KEEL_POOL_PAGES" standard.capacity
    pageSize := ← number env "KEEL_PAGE_SIZE" standard.pageSize
    lockTimeout := ← number env "KEEL_LOCK_TIMEOUT_MS" standard.lockTimeout
    lockJitter := ← number env "KEEL_LOCK_JITTER_MS" standard.lockJitter
    lockPoll := ← number env "KEEL_LOCK_POLL_MS" standard.lockPoll }
  settings.validate
  return settings

end Settings

end HeapStore
