import HeapStore.Disk
import HeapStore.Log.Frame

/-!
# The write-ahead log

The log is a file of framed records.  Opening walks its records, cuts off a last record that was
not written to its end, and refuses a log that goes on after a damaged record.  Records are
written at the end of the file; the log counts their positions from where it was opened, and
chains the records of each transaction that has not ended.

`openContent` and `append` work on the content of the log file, so that what they do to it is in
their result; `openFile` and `write` do the same to the file on a disk.
-/

namespace HeapStore

/-- An open log: its file, the position of the next record, the last update record of each
transaction that has not ended, and the largest transaction found at opening. -/
structure Log where
  location : Location
  next : Lsn
  last : List (TransactionId × Lsn)
  recovered : Option TransactionId
  deriving Inhabited

namespace Log

/-- The larger of two transactions, where there are two. -/
def maxTransaction (a : Option TransactionId) (b : TransactionId) : Option TransactionId :=
  match a with
  | none => some b
  | some a => if a < b then some b else some a

/-- Walks the records of `rest`, which starts at `position`: where the sound records end, and the
largest transaction among them. -/
def walk (position : Lsn) (largest : Option TransactionId) (rest : Content) :
    Except StoreError (Lsn × Option TransactionId) :=
  match _found : LogHead.ofContent rest with
  | .done => .ok (position, largest)
  | .torn => .ok (position, largest)
  | .corrupt => .error (.file (.corruptRecord position .checksumMismatch))
  | .record transaction length =>
    walk (position + length) (maxTransaction largest transaction) (rest.drop length)
termination_by rest.size
decreasing_by
  have sound := LogHead.length_of_record _found
  simp only [logHeaderSize] at sound
  simp only [Content.size_drop]
  omega

/-- Opens a log with this content at `location`.  The content comes back without a torn end. -/
def openContent (location : Location) (content : Content) : Except StoreError (Log × Content) := do
  let (stop, recovered) ← walk 0 none content
  return ({ location := location, next := stop, last := [], recovered := recovered },
    content.take stop)

/-- The chain after a record: an update is the last record of its transaction, and the end of a
transaction takes it out. -/
def chain (last : List (TransactionId × Lsn)) (transaction : TransactionId) (lsn : Lsn) :
    LogRecord → List (TransactionId × Lsn)
  | .update _ _ _ => (transaction, lsn) :: last.filter (·.1 ≠ transaction)
  | .commit => last.filter (·.1 ≠ transaction)
  | .abort => last.filter (·.1 ≠ transaction)

/-- Writes a record at the end of the content.  Its position is what the log takes for the end. -/
def append (log : Log) (content : Content) (transaction : TransactionId) (record : LogRecord) :
    Lsn × Log × Content :=
  let frame := encodeFrame transaction (log.last.lookup transaction) record
  (log.next,
    { log with
      next := log.next + (logHeaderSize + record.encode.length) % UInt32.size
      last := chain log.last transaction log.next record },
    content.append frame)

/-- Reads the record at a position.  Its header must not reach over the largest position. -/
def read (content : Content) (lsn : Lsn) : Except StoreError LogEntry := do
  if Content.maxPosition < lsn + logHeaderSize then
    throw (.ofDisk .invalidArgument)
  let (entry, _) ← readFrame lsn (content.drop lsn)
  return entry

/-- Reads the records of `rest`, which starts at `position`, until `stop` is reached. -/
def readUntil (stop : Lsn) (position : Lsn) (rest : Content) : Except StoreError (List LogEntry) :=
  if position < stop then
    match _found : readFrame position rest with
    | .error error => .error error
    | .ok (entry, length) =>
      (readUntil stop (position + length) (rest.drop length)).map (entry :: ·)
  else .ok []
termination_by rest.size
decreasing_by
  have sound := length_of_readFrame _found
  simp only [logHeaderSize] at sound
  simp only [Content.size_drop]
  omega

/-- All records up to the end of the log, in order. -/
def records (log : Log) (content : Content) : Except StoreError (List LogEntry) :=
  readUntil log.next 0 content

/-! ## The log on a disk -/

/-- Opens the log file at a path, which is made if it is missing and cut if its end is torn. -/
def openFile (disk : Disk) (path : String) : Except StoreError Log × Disk :=
  match disk.openFile (Path.ofString path) with
  | .error error => (.error (.ofDisk error), disk)
  | .ok (location, made) =>
    match openContent location (made.content location) with
    | .error error => (.error error, made)
    | .ok (log, content) => (.ok log, made.write location content)

/-- Writes a record at the end of the log file and gives its position. -/
def write (log : Log) (disk : Disk) (transaction : TransactionId) (record : LogRecord) :
    Lsn × Log × Disk :=
  let (lsn, longer, content) := log.append (disk.content log.location) transaction record
  (lsn, longer, disk.write log.location content)

end Log

end HeapStore
