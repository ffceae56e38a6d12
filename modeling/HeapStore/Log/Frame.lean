import HeapStore.Crc32
import HeapStore.Disk.Content
import HeapStore.Error
import HeapStore.Log.Record

/-!
# Framed log records

In the log file a record stands behind a header of 24 bytes: the length of header and record, the
transaction, the position of the transaction's previous record, and a checksum over all of these
and the record.  Positions are byte offsets in the file.  A header whose previous position is the
largest number of 64 bits has none.

`LogHead.ofContent` looks at the front of a file and says which of four things it finds;
`readFrame` reads one record in full.
-/

namespace HeapStore

/-- A position in the log file. -/
abbrev Lsn := Nat

/-- Bytes of the header of a record. -/
def logHeaderSize : Nat := 24

/-- The stored previous position of a record that has none. -/
def noPrevious : Nat := UInt64.size - 1

/-- A record with its place in the log and in the chain of its transaction. -/
structure LogEntry where
  lsn : Lsn
  transaction : TransactionId
  previous : Option Lsn
  record : LogRecord
  deriving DecidableEq, Inhabited

/-- The fields of a stored header. -/
structure LogHeader where
  length : Nat
  transaction : TransactionId
  previous : Nat
  checksum : UInt32
  deriving DecidableEq, Inhabited

namespace LogHeader

/-- The checksum of a record body under these header fields. -/
def checksumOf (length : Nat) (transaction : TransactionId) (previous : Nat) (body : Bytes) :
    UInt32 :=
  Crc32.checksum (Bytes.ofNat 4 length ++ Bytes.ofNat 8 transaction.toNat ++
    Bytes.ofNat 8 previous ++ body)

/-- Reads a header off its 24 bytes. -/
def ofBytes (bytes : Bytes) : LogHeader where
  length := Bytes.toNat (bytes.take 4)
  transaction := UInt64.ofNat (Bytes.toNat (Bytes.slice 4 8 bytes))
  previous := Bytes.toNat (Bytes.slice 12 8 bytes)
  checksum := UInt32.ofNat (Bytes.toNat (Bytes.slice 20 4 bytes))

/-- The body that follows the header in `rest`. -/
def body (header : LogHeader) (rest : Content) : Bytes :=
  rest.slice logHeaderSize (header.length - logHeaderSize)

/-- The stored checksum is that of the header fields and the body that follows in `rest`. -/
def matchesBody (header : LogHeader) (rest : Content) : Bool :=
  checksumOf header.length header.transaction header.previous (header.body rest) = header.checksum

end LogHeader

/-- The stored form of a record, header and body. -/
def encodeFrame (transaction : TransactionId) (previous : Option Lsn) (record : LogRecord) :
    Bytes :=
  let body := record.encode
  let length := (logHeaderSize + body.length) % UInt32.size
  let previous := previous.getD noPrevious
  Bytes.ofNat 4 length ++ Bytes.ofNat 8 transaction.toNat ++ Bytes.ofNat 8 previous ++
    Bytes.ofNat 4 (LogHeader.checksumOf length transaction previous body).toNat ++ body

/-- What the front of the rest of a log is. -/
inductive LogHead where
  /-- Nothing is left. -/
  | done
  /-- A record that was not written to its end, with nothing after it. -/
  | torn
  /-- A record with a wrong checksum and more of the log after it. -/
  | corrupt
  /-- A sound record of so many bytes. -/
  | record (transaction : TransactionId) (length : Nat)
  deriving DecidableEq, Inhabited

namespace LogHead

/-- Looks at the front of the rest of a log, without reading record bodies. -/
def ofContent (rest : Content) : LogHead :=
  let available := rest.size
  if available = 0 then .done
  else if available < logHeaderSize then .torn
  else
    let header := LogHeader.ofBytes (rest.slice 0 logHeaderSize)
    if header.length < logHeaderSize || available < header.length then .torn
    else if header.matchesBody rest then .record header.transaction header.length
    else if header.length = available then .torn
    else .corrupt

/-- A sound record is at least a header long and lies within the rest. -/
theorem length_of_record {rest : Content} {transaction : TransactionId} {length : Nat}
    (h : ofContent rest = .record transaction length) :
    logHeaderSize ≤ length ∧ length ≤ rest.size := by
  unfold ofContent at h
  simp only at h
  split at h
  · simp at h
  · split at h
    · simp at h
    · split at h
      · simp at h
      · split at h
        · rename_i fits _
          simp only [LogHead.record.injEq] at h
          simp only [Bool.or_eq_true, decide_eq_true_eq, not_or, Nat.not_lt] at fits
          omega
        · split at h <;> simp at h

end LogHead

/-- Reads the record at the front of `rest`, which starts at position `lsn`, and gives its length
too. -/
def readFrame (lsn : Lsn) (rest : Content) : Except StoreError (LogEntry × Nat) :=
  let header := LogHeader.ofBytes (rest.slice 0 logHeaderSize)
  if rest.size < logHeaderSize then .error (.file .endOfFile)
  else if header.length < logHeaderSize then
    .error (.file (.corruptRecord lsn .shorterThanHeader))
  else if rest.size < header.length then .error (.file .endOfFile)
  else if !header.matchesBody rest then .error (.file (.corruptRecord lsn .checksumMismatch))
  else
    match LogRecord.decode? (header.body rest) with
    | none => .error (.file (.corruptRecord lsn .unknownBody))
    | some record =>
      let previous := if header.previous = noPrevious then none else some header.previous
      .ok (⟨lsn, header.transaction, previous, record⟩, header.length)

/-- A record that was read is at least a header long and lies within the rest. -/
theorem length_of_readFrame {lsn : Lsn} {rest : Content} {entry : LogEntry} {length : Nat}
    (h : readFrame lsn rest = .ok (entry, length)) :
    logHeaderSize ≤ length ∧ length ≤ rest.size := by
  simp only [readFrame] at h
  repeat' split at h
  all_goals simp at h
  all_goals omega

end HeapStore
