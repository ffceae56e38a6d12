import HeapStore.Address
import HeapStore.Disk.DiskError
import HeapStore.Text.Quoted

/-!
# Errors

Every failure is a cause: a constructor with the values that the failure is about.  The wording
of all causes is in one place, `StoreError.message`.
-/

namespace HeapStore

/-- What is wrong with the bytes of a page. -/
inductive PageFault where
  | rowsDoNotFit (rowSize pageSize : Nat)
  | invalidRow (slot : Nat)
  | wrongSize (given expected : Nat)
  deriving DecidableEq, Inhabited

/-- What is wrong with a log record. -/
inductive RecordFault where
  | checksumMismatch
  | shorterThanHeader
  | unknownBody
  deriving DecidableEq, Inhabited

/-- What is wrong with a catalog line or with a table to be registered. -/
inductive CatalogFault where
  | pageSizeMismatch (name : String) (tableSize catalogSize : Nat)
  | idCollision (id : TableId) (path existing : String)
  | invalidEntry (line : String)
  | unknownType (type line : String)
  | unknownMark (mark line : String)
  deriving DecidableEq, Inhabited

/-- What is wrong with the settings. -/
inductive SettingsFault where
  | noCapacity
  | pageSizeOutOfRange (pageSize : Nat)
  | invalidValue (key value : String)
  | pageSizeMismatch (catalogSize poolSize : Nat)
  deriving DecidableEq, Inhabited

/-- What went wrong with a file. -/
inductive FileFault where
  | disk (error : DiskError)
  | endOfFile
  | notUtf8
  | failpoint (site : String)
  | corruptRecord (lsn : Nat) (fault : RecordFault)
  deriving DecidableEq, Inhabited

/-- Why an operation of the store failed. -/
inductive StoreError where
  | lockTimeout (transaction : TransactionId) (page : PageAddress)
  | pageFull (page : PageAddress)
  | schemaMismatch (table : TableId)
  | pageOutOfRange (page : PageAddress) (count : UInt32)
  | rowNotOnPage (page : PageAddress)
  | slotEmpty (page : PageAddress) (slot : Nat)
  | missingAddress
  | malformedPage (page : PageAddress) (fault : PageFault)
  | allPagesDirty (cached : Nat)
  | noEvictablePage (cached inUse : Nat)
  | unknownTable (table : TableId)
  | unknownTableName (name : String)
  | catalog (fault : CatalogFault)
  | settings (fault : SettingsFault)
  | file (fault : FileFault)
  deriving DecidableEq, Inhabited

/-- The largest page size that settings may ask for. -/
def maxPageSize : Nat := 1048576

namespace PageFault

/-- The wording of the fault. -/
def message : PageFault → String
  | .rowsDoNotFit rowSize pageSize =>
    s!"{rowSize}-byte tuples do not fit in a {pageSize}-byte page"
  | .invalidRow slot => s!"slot {slot} holds an invalid tuple"
  | .wrongSize given expected =>
    s!"{given}-byte page written to a table of {expected}-byte pages"

end PageFault

namespace RecordFault

/-- The wording of the fault. -/
def message : RecordFault → String
  | .checksumMismatch => "checksum mismatch"
  | .shorterThanHeader => "record shorter than its header"
  | .unknownBody => "unknown record body"

end RecordFault

namespace CatalogFault

/-- The wording of the fault; texts of the user are quoted. -/
def message : CatalogFault → String
  | .pageSizeMismatch name tableSize catalogSize =>
    "table " ++ Text.quoted name ++
      s!" uses {tableSize}-byte pages, catalog expects {catalogSize}"
  | .idCollision id path existing =>
    s!"table id {id} of " ++ Text.quoted path ++ " collides with " ++ Text.quoted existing
  | .invalidEntry line => "invalid catalog entry: " ++ Text.quoted line
  | .unknownType type line => "unknown type " ++ Text.quoted type ++ " in " ++ Text.quoted line
  | .unknownMark mark line =>
    "unknown annotation " ++ Text.quoted mark ++ " in " ++ Text.quoted line

end CatalogFault

namespace SettingsFault

/-- The wording of the fault. -/
def message : SettingsFault → String
  | .noCapacity => "buffer pool capacity must be at least 1"
  | .pageSizeOutOfRange pageSize =>
    s!"page size must be between 1 and {maxPageSize} bytes, got {pageSize}"
  | .invalidValue key value => key ++ "=" ++ Text.quoted value ++ " is not a valid value"
  | .pageSizeMismatch catalogSize poolSize =>
    s!"catalog uses {catalogSize}-byte pages but the pool is configured for {poolSize}"

end SettingsFault

namespace FileFault

/-- The wording of the fault. -/
def message : FileFault → String
  | .disk error => error.message
  | .endOfFile => "failed to fill whole buffer"
  | .notUtf8 => "stream did not contain valid UTF-8"
  | .failpoint site => "failpoint triggered: " ++ site
  | .corruptRecord lsn fault => s!"corrupt WAL record at {lsn}: " ++ fault.message

end FileFault

namespace StoreError

/-- The wording of the cause. -/
def message : StoreError → String
  | .lockTimeout transaction page =>
    s!"transaction {transaction} aborted: timed out waiting for a lock on page {page.render}"
  | .pageFull page => s!"page {page.render} has no empty slot"
  | .schemaMismatch table => s!"tuple schema does not match the schema of table {table}"
  | .pageOutOfRange page count =>
    s!"page {page.render} is out of range: table holds {count} pages"
  | .rowNotOnPage page => s!"tuple is not stored on page {page.render}"
  | .slotEmpty page slot => s!"slot {slot} on page {page.render} is already empty"
  | .missingAddress => "tuple has no record address"
  | .malformedPage page fault => s!"malformed page {page.render}: " ++ fault.message
  | .allPagesDirty cached => s!"cannot evict: all {cached} cached pages are dirty"
  | .noEvictablePage cached inUse =>
    s!"cannot evict: {inUse} of {cached} cached pages are being modified, the rest are dirty"
  | .unknownTable table => s!"no table with id {table}"
  | .unknownTableName name => "no table named " ++ Text.quoted name
  | .catalog fault => "catalog error: " ++ fault.message
  | .settings fault => "invalid configuration: " ++ fault.message
  | .file fault => "I/O error: " ++ fault.message

/-- The transaction has to be aborted: a lock was not granted in time. -/
def mustAbort : StoreError → Bool
  | .lockTimeout _ _ => true
  | _ => false

/-- A refusal of the system, as an error of the store. -/
def ofDisk (error : DiskError) : StoreError :=
  .file (.disk error)

end StoreError

end HeapStore
