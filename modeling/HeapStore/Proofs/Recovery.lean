import HeapStore.Log
import HeapStore.Proofs.File
import HeapStore.Proofs.Frame

/-!
# Recovery of the log

The walk over a log file goes past every frame that is whole and ends at the first one that is not.
`Log.Holds` says that a file consists of certain records and that a log goes on behind them; each
record that is written keeps it so.  From a file that holds records and is then cut at any byte,
opening recovers the records that lie before the cut, and the log goes on behind those.
-/

namespace HeapStore

/-- The disk after a crash that left the first `size` bytes of a file. -/
def Disk.cut (disk : Disk) (location : Location) (size : Nat) : Disk :=
  disk.write location ((disk.content location).take size)

namespace Log

/-! ## The walk -/

section

variable {position : Lsn} {largest : Option TransactionId} {rest : Content}

theorem walk_of_record {transaction : TransactionId} {length : Nat}
    (hhead : LogHead.ofContent rest = .record transaction length) :
    walk position largest rest =
      walk (position + length) (maxTransaction largest transaction) (rest.drop length) := by
  rw [walk]
  split <;> simp_all

theorem walk_of_end
    (hhead : LogHead.ofContent rest = .done ∨ LogHead.ofContent rest = .torn) :
    walk position largest rest = .ok (position, largest) := by
  rw [walk]
  split <;> simp_all

theorem walk_of_corrupt (hhead : LogHead.ofContent rest = .corrupt) :
    walk position largest rest = .error (.file (.corruptRecord position .checksumMismatch)) := by
  rw [walk]
  split <;> simp_all

end

/-- The bytes of frames that stand one behind the other. -/
def bytesOf (frames : List LogFrame) : Bytes :=
  frames.flatMap LogFrame.bytes

@[simp] theorem bytesOf_nil : bytesOf [] = [] :=
  rfl

@[simp] theorem bytesOf_cons (frame : LogFrame) (frames : List LogFrame) :
    bytesOf (frame :: frames) = frame.bytes ++ bytesOf frames :=
  rfl

@[simp] theorem bytesOf_append (front back : List LogFrame) :
    bytesOf (front ++ back) = bytesOf front ++ bytesOf back :=
  List.flatMap_append

/-- The walk goes past frames at the front and collects their transactions. -/
theorem walk_frames {frames : List LogFrame} (hfits : ∀ frame ∈ frames, frame.Fits)
    {content : Content} {tail : Bytes} (hbytes : content.toBytes = bytesOf frames ++ tail)
    (position : Lsn) (largest : Option TransactionId) :
    ∃ rest : Content, rest.toBytes = tail ∧
      walk position largest content =
        walk (position + (bytesOf frames).length)
          ((frames.map LogFrame.transaction).foldl maxTransaction largest) rest := by
  induction frames generalizing content position largest with
  | nil => exact ⟨content, hbytes, rfl⟩
  | cons frame frames ih =>
    rw [bytesOf_cons, List.append_assoc] at hbytes
    have hhead := LogFrame.head_eq_record (hfits frame List.mem_cons_self) hbytes
    have hdrop : (content.drop frame.length).toBytes = bytesOf frames ++ tail := by
      rw [Content.toBytes_drop, hbytes, List.drop_left' frame.length_bytes]
    obtain ⟨rest, hrest, hwalk⟩ := ih (fun other hother => hfits other (.tail _ hother)) hdrop
      (position + frame.length) (maxTransaction largest frame.transaction)
    refine ⟨rest, hrest, ?_⟩
    rw [walk_of_record hhead, hwalk]
    simp [Nat.add_assoc]

/-- The largest of some transactions, found one by one. -/
theorem foldl_maxTransaction (transactions : List TransactionId) :
    transactions.foldl maxTransaction none = transactions.max? := by
  have hmax : ∀ a b : TransactionId, maxTransaction (some a) b = some (max a b) := by
    intro a b
    show (if a < b then some b else some a) = some (if a ≤ b then b else a)
    split
    · rename_i hlt
      rw [if_pos (UInt64.le_of_lt hlt)]
    · rename_i hlt
      split
      · rename_i hle
        rw [UInt64.le_antisymm hle (UInt64.not_lt.mp hlt)]
      · rfl
  have hsome : ∀ (rest : List TransactionId) (a : TransactionId),
      rest.foldl maxTransaction (some a) = some (rest.foldl max a) := by
    intro rest
    induction rest with
    | nil => exact fun a => rfl
    | cons b rest ih =>
      intro a
      rw [List.foldl_cons, hmax, ih, List.foldl_cons]
  cases transactions with
  | nil => rfl
  | cons a rest => exact hsome rest a

/-- Nothing that starts with these bytes is taken for a record or for damage. -/
def Ends (bytes : Bytes) : Prop :=
  ∀ rest : Content, rest.toBytes = bytes →
    LogHead.ofContent rest = .done ∨ LogHead.ofContent rest = .torn

theorem ends_nil : Ends [] :=
  fun rest hrest => .inl (by simp [LogHead.ofContent, Content.size_eq_length, hrest])

theorem ends_take {frame : LogFrame} (hfits : frame.Fits) {count : Nat}
    (hcount : count < frame.length) : Ends (frame.bytes.take count) :=
  fun _ hrest => LogFrame.head_of_cut hfits hcount hrest

/-- A log opens if its records can be walked, and goes on where the walk ends. -/
theorem openContent_eq_ok_iff {location : Location} {content kept : Content} {log : Log} :
    openContent location content = .ok (log, kept) ↔
      ∃ stop recovered, walk 0 none content = .ok (stop, recovered) ∧
        log = ⟨location, stop, [], recovered⟩ ∧ kept = content.take stop := by
  rw [openContent, bind_eq_ok_iff]
  constructor
  · rintro ⟨⟨stop, recovered⟩, hwalk, hopen⟩
    obtain ⟨rfl, rfl⟩ := Prod.mk.inj (Except.ok.inj hopen)
    exact ⟨stop, recovered, hwalk, rfl, rfl⟩
  · rintro ⟨stop, recovered, hwalk, rfl, rfl⟩
    exact ⟨_, hwalk, rfl⟩

/-- Opening keeps the frames at the front of the file and nothing else. -/
theorem openContent_frames {frames : List LogFrame} (hfits : ∀ frame ∈ frames, frame.Fits)
    {content : Content} {tail : Bytes} (hbytes : content.toBytes = bytesOf frames ++ tail)
    (htail : Ends tail) (location : Location) :
    openContent location content =
      .ok (⟨location, (bytesOf frames).length, [], (frames.map LogFrame.transaction).max?⟩,
        content.take (bytesOf frames).length) := by
  obtain ⟨rest, hrest, hwalk⟩ := walk_frames hfits hbytes 0 none
  rw [Nat.zero_add, foldl_maxTransaction, walk_of_end (htail rest hrest)] at hwalk
  exact openContent_eq_ok_iff.mpr ⟨_, _, hwalk, rfl, rfl⟩

/-- A log on an empty file starts at its front. -/
theorem openContent_empty {content : Content} (hempty : content.toBytes = [])
    (location : Location) :
    openContent location content = .ok (⟨location, 0, [], none⟩, content.take 0) := by
  have hnone : ∀ frame ∈ ([] : List LogFrame), frame.Fits := by simp
  exact openContent_frames hnone hempty ends_nil location

theorem location_of_openContent {location : Location} {content kept : Content} {log : Log}
    (hopen : openContent location content = .ok (log, kept)) : log.location = location := by
  obtain ⟨stop, recovered, -, rfl, -⟩ := openContent_eq_ok_iff.mp hopen
  rfl

/-! ## Records in a file -/

/-- Where the last of some records ends; `position` if there is none. -/
def stopOf (position : Nat) (entries : List LogEntry) : Nat :=
  (entries.getLast?.map LogEntry.stop).getD position

/-- Records that stand one behind the other from `position` on. -/
def Stacked : Nat → List LogEntry → Prop
  | _, [] => True
  | position, entry :: rest => position = entry.lsn ∧ Stacked entry.stop rest

section

variable {position size : Nat} {entries : List LogEntry}

@[simp] theorem stopOf_nil (position : Nat) : stopOf position [] = position :=
  rfl

@[simp] theorem stopOf_cons (position : Nat) (entry : LogEntry) (rest : List LogEntry) :
    stopOf position (entry :: rest) = stopOf entry.stop rest := by
  simp only [stopOf, List.getLast?_cons]
  cases rest.getLast? <;> rfl

@[simp] theorem stopOf_append (position : Nat) (front back : List LogEntry) :
    stopOf position (front ++ back) = stopOf (stopOf position front) back := by
  induction front generalizing position with
  | nil => rfl
  | cons entry rest ih => rw [List.cons_append, stopOf_cons, stopOf_cons, ih]

theorem stacked_append {front back : List LogEntry} :
    Stacked position (front ++ back) ↔
      Stacked position front ∧ Stacked (stopOf position front) back := by
  induction front generalizing position with
  | nil => simp [Stacked]
  | cons entry rest ih => simp [Stacked, ih, and_assoc]

/-- The file has the length at which the last record ends. -/
theorem Stacked.length (hstacked : Stacked position entries) :
    position + (bytesOf (entries.map LogEntry.frame)).length = stopOf position entries := by
  induction entries generalizing position with
  | nil => rfl
  | cons entry rest ih =>
    rw [stopOf_cons, ← ih hstacked.2, LogEntry.stop, ← hstacked.1, LogEntry.length]
    simp [Nat.add_assoc]

theorem Stacked.le_stopOf (hstacked : Stacked position entries) :
    position ≤ stopOf position entries :=
  hstacked.length ▸ Nat.le_add_right ..

/-- Every record ends where the last one does, or before. -/
theorem Stacked.stop_le (hstacked : Stacked position entries) :
    ∀ entry ∈ entries, entry.stop ≤ stopOf position entries := by
  induction entries generalizing position with
  | nil => simp
  | cons first rest ih =>
    intro entry hentry
    rw [stopOf_cons]
    rcases List.mem_cons.mp hentry with rfl | hrest
    · exact hstacked.2.le_stopOf
    · exact ih hstacked.2 entry hrest

/-- No record starts before the first one. -/
theorem Stacked.le_lsn (hstacked : Stacked position entries) :
    ∀ entry ∈ entries, position ≤ entry.lsn := by
  induction entries generalizing position with
  | nil => simp
  | cons first rest ih =>
    intro entry hentry
    rcases List.mem_cons.mp hentry with rfl | hrest
    · exact Nat.le_of_eq hstacked.1
    · have hfirst := first.lsn_lt_stop
      rw [← hstacked.1] at hfirst
      exact Nat.le_trans (Nat.le_of_lt hfirst) (ih hstacked.2 entry hrest)

/-- No record lies within the first `size` bytes if the first one starts behind them. -/
theorem Stacked.filter_eq_nil (hstacked : Stacked position entries) (hsize : size < position) :
    entries.filter (·.stop ≤ size) = [] := by
  apply List.filter_eq_nil_iff.mpr
  intro entry hentry
  have hbehind : size < entry.stop := calc
    size < position := hsize
    _ ≤ entry.lsn := hstacked.le_lsn entry hentry
    _ < entry.stop := entry.lsn_lt_stop
  simpa using hbehind

/-- Records that lie within the first `size` bytes are the first ones. -/
theorem Stacked.filter (hstacked : Stacked position entries) :
    Stacked position (entries.filter (·.stop ≤ size)) := by
  induction entries generalizing position with
  | nil => trivial
  | cons entry rest ih =>
    by_cases hwhole : entry.stop ≤ size
    · rw [List.filter_cons_of_pos (by simpa using hwhole)]
      exact ⟨hstacked.1, ih hstacked.2⟩
    · rw [List.filter_cons_of_neg (by simpa using hwhole),
        hstacked.2.filter_eq_nil (Nat.lt_of_not_le hwhole)]
      trivial

/-- A file cut to its first `size` bytes has the records that lie within them, and behind these
nothing that is taken for a record. -/
theorem Stacked.cut (hstacked : Stacked position entries) (hposition : position ≤ size)
    (hfits : ∀ entry ∈ entries, entry.lsn < size → entry.frame.Fits) :
    ∃ torn, Ends torn ∧
      (bytesOf (entries.map LogEntry.frame)).take (size - position) =
        bytesOf ((entries.filter (·.stop ≤ size)).map LogEntry.frame) ++ torn := by
  induction entries generalizing position with
  | nil => exact ⟨[], ends_nil, by simp⟩
  | cons entry rest ih =>
    have hlsn := hstacked.1
    have hlength : entry.stop = position + entry.frame.length := by
      rw [LogEntry.stop, ← hlsn, LogEntry.length]
    by_cases hwhole : entry.stop ≤ size
    · obtain ⟨torn, hends, htake⟩ := ih hstacked.2 hwhole
        fun other hother => hfits other (.tail _ hother)
      refine ⟨torn, hends, ?_⟩
      rw [List.filter_cons_of_pos (by simpa using hwhole), List.map_cons, List.map_cons,
        bytesOf_cons, bytesOf_cons, List.append_assoc, ← htake, List.take_append,
        LogFrame.length_bytes, List.take_of_length_le (by rw [LogFrame.length_bytes]; omega)]
      congr 2
      omega
    · refine ⟨entry.frame.bytes.take (size - position), ?_, ?_⟩
      · -- The cut lies in this record, or where it would start.
        rcases Nat.eq_or_lt_of_le hposition with hnone | hsome
        · simp only [hnone, Nat.sub_self, List.take_zero]
          exact ends_nil
        · exact ends_take (hfits entry List.mem_cons_self (hlsn ▸ hsome))
            (by omega)
      · rw [List.filter_cons_of_neg (by simpa using hwhole),
          hstacked.2.filter_eq_nil (Nat.lt_of_not_le hwhole), List.map_cons, bytesOf_cons,
          List.take_append_of_le_length (by rw [LogFrame.length_bytes]; omega)]
        rfl

end

/-! ## Reading -/

theorem readUntil_of_frame {stop position : Nat} {rest : Content} {entry : LogEntry} {length : Nat}
    (hposition : position < stop) (hread : readFrame position rest = .ok (entry, length)) :
    readUntil stop position rest =
      (readUntil stop (position + length) (rest.drop length)).map (entry :: ·) := by
  rw [readUntil, if_pos hposition]
  split <;> simp_all

theorem readUntil_of_stop {stop position : Nat} (hposition : stop ≤ position) (rest : Content) :
    readUntil stop position rest = .ok [] := by
  rw [readUntil, if_neg (Nat.not_lt.mpr hposition)]

/-- Reading up to the end of the last record gives the records. -/
theorem Stacked.readUntil {position : Nat} {entries : List LogEntry}
    (hstacked : Stacked position entries) (hfits : ∀ entry ∈ entries, entry.Fits)
    {content : Content} {tail : Bytes}
    (hbytes : content.toBytes = bytesOf (entries.map LogEntry.frame) ++ tail) :
    Log.readUntil (stopOf position entries) position content = .ok entries := by
  induction entries generalizing position content with
  | nil => exact readUntil_of_stop (Nat.le_refl _) content
  | cons entry rest ih =>
    obtain ⟨hlsn, hrest⟩ := hstacked
    rw [List.map_cons, bytesOf_cons, List.append_assoc] at hbytes
    have hread : readFrame position content = .ok (entry, entry.length) :=
      hlsn ▸ entry.readFrame_eq (hfits entry List.mem_cons_self) hbytes
    have hdrop : (content.drop entry.length).toBytes =
        bytesOf (rest.map LogEntry.frame) ++ tail := by
      rw [Content.toBytes_drop, hbytes]
      exact List.drop_left' entry.frame.length_bytes
    have hstop : position + entry.length = entry.stop := by rw [hlsn, LogEntry.stop]
    have hbefore : position < stopOf entry.stop rest := by
      rw [hlsn]
      exact Nat.lt_of_lt_of_le entry.lsn_lt_stop hrest.le_stopOf
    rw [stopOf_cons, readUntil_of_frame hbefore hread, hstop,
      ih hrest (fun other hother => hfits other (.tail _ hother)) hdrop]
    rfl

/-! ## Writing -/

/-- Behind what was in the file before, the file consists of these records, and the log goes on
behind them. -/
structure Extends (log : Log) (front : Bytes) (content : Content) (entries : List LogEntry) :
    Prop where
  bytes : content.toBytes = front ++ bytesOf (entries.map LogEntry.frame)
  stacked : Stacked front.length entries
  next : log.next = stopOf front.length entries
  /-- The length of each record has room in its header. -/
  short : ∀ entry ∈ entries, entry.length < UInt32.size
  /-- The previous record of the same transaction lies before. -/
  chained : ∀ entry ∈ entries, ∀ lsn, entry.previous = some lsn → lsn < entry.lsn
  last : ∀ pair ∈ log.last, pair.2 < log.next

namespace Extends

variable {log : Log} {front : Bytes} {content : Content} {entries : List LogEntry}
  {transaction : TransactionId} {record : LogRecord}

/-- A record that starts at a number of 64 bits fits its frame. -/
theorem fits (hextends : log.Extends front content entries) {entry : LogEntry}
    (hentry : entry ∈ entries) (hlsn : entry.lsn < UInt64.size) : entry.Fits where
  length := hextends.short entry hentry
  previous lsn hprevious :=
    Nat.lt_of_lt_of_le (hextends.chained entry hentry lsn hprevious) (Nat.le_sub_one_of_lt hlsn)

/-- The file ends where its last record ends. -/
theorem size (hextends : log.Extends front content entries) :
    content.size = stopOf front.length entries := by
  rw [Content.size_eq_length, hextends.bytes, List.length_append, hextends.stacked.length]

/-- All records of a file whose length is a number of 64 bits fit their frames. -/
theorem fits_of_size (hextends : log.Extends front content entries)
    (hsize : content.size < UInt64.size) : ∀ entry ∈ entries, entry.Fits := by
  intro entry hentry
  have hstop := hextends.stacked.stop_le entry hentry
  rw [← hextends.size] at hstop
  exact hextends.fits hentry (Nat.lt_trans (Nat.lt_of_lt_of_le entry.lsn_lt_stop hstop) hsize)

/-- The records are read back behind what was in the file before. -/
theorem readUntil (hextends : log.Extends front content entries)
    (hfits : ∀ entry ∈ entries, entry.Fits) :
    Log.readUntil log.next front.length (content.drop front.length) = .ok entries := by
  have hbytes : (content.drop front.length).toBytes
      = bytesOf (entries.map LogEntry.frame) ++ [] := by
    rw [Content.toBytes_drop, hextends.bytes, List.drop_left, List.append_nil]
  rw [hextends.next]
  exact hextends.stacked.readUntil hfits hbytes

/-- The last record of a transaction lies before the end of the log. -/
theorem lookup_lt (hextends : log.Extends front content entries) {lsn : Lsn}
    (hlast : log.last.lookup transaction = some lsn) : lsn < log.next := by
  obtain ⟨before, behind, hpairs, -⟩ := List.lookup_eq_some_iff.mp hlast
  exact hextends.last (transaction, lsn) (by simp [hpairs])

/-- A chain leads to positions before the end of the log. -/
theorem chain_lt (hextends : log.Extends front content entries) {stop : Lsn}
    (hstop : log.next < stop) :
    ∀ pair ∈ chain log.last transaction log.next record, pair.2 < stop := by
  have hkept : ∀ pair ∈ log.last.filter (·.1 ≠ transaction), pair.2 < stop := fun pair hpair =>
    Nat.lt_trans (hextends.last pair (List.mem_filter.mp hpair).1) hstop
  cases record with
  | update page before after =>
    intro pair hpair
    rcases List.mem_cons.mp hpair with rfl | hpair
    · exact hstop
    · exact hkept pair hpair
  | commit => exact hkept
  | abort => exact hkept

/-- A record that is written comes behind those of the file. -/
theorem append (hextends : log.Extends front content entries) (transaction : TransactionId)
    (hlength : logHeaderSize + record.encode.length < UInt32.size) :
    ∃ longer after, log.append content transaction record = (log.next, longer, after) ∧
      longer.location = log.location ∧
      longer.last = chain log.last transaction log.next record ∧
      longer.Extends front after
        (entries ++ [⟨log.next, transaction, log.last.lookup transaction, record⟩]) := by
  let entry : LogEntry := ⟨log.next, transaction, log.last.lookup transaction, record⟩
  have hstop : log.next + (logHeaderSize + record.encode.length) % UInt32.size = entry.stop := by
    rw [Nat.mod_eq_of_lt hlength]
    rfl
  have hbytes : encodeFrame transaction (log.last.lookup transaction) record = entry.frame.bytes :=
    entry.encodeFrame_eq hlength
  refine ⟨_, _, rfl, rfl, rfl, ?_⟩
  simp only [hstop, hbytes]
  -- What holds of the old records and of the new one holds of all.
  have hevery : ∀ {holds : LogEntry → Prop}, (∀ old ∈ entries, holds old) → holds entry →
      ∀ other ∈ entries ++ [entry], holds other := by
    intro holds hold hnew other hother
    rcases List.mem_append.mp hother with hother | hother
    · exact hold other hother
    · exact List.mem_singleton.mp hother ▸ hnew
  exact {
    bytes := by simp [hextends.bytes, entry]
    stacked := stacked_append.mpr ⟨hextends.stacked, hextends.next.symm, trivial⟩
    next := (stopOf_append front.length entries [entry]).symm
    short := hevery hextends.short hlength
    chained := hevery hextends.chained fun lsn hlast => hextends.lookup_lt hlast
    last := hextends.chain_lt entry.lsn_lt_stop }

/-- The same on a disk: only the file of the log changes. -/
theorem write {disk : Disk} (hlocation : log.location ≠ [])
    (hextends : log.Extends front (disk.content log.location) entries)
    (transaction : TransactionId) (hlength : logHeaderSize + record.encode.length < UInt32.size) :
    ∃ longer content, log.write disk transaction record =
        (log.next, longer, disk.write log.location content) ∧
      longer.location = log.location ∧
      longer.Extends front ((disk.write log.location content).content log.location)
        (entries ++ [⟨log.next, transaction, log.last.lookup transaction, record⟩]) := by
  obtain ⟨longer, content, happend, hsame, -, hlonger⟩ := hextends.append transaction hlength
  refine ⟨longer, content, by rw [Log.write, happend], hsame, ?_⟩
  rwa [Disk.content_write_same disk hlocation]

end Extends

/-- Writes records of transactions one after the other, and gives them as they stand in the file. -/
def writeAll (log : Log) (disk : Disk) :
    List (TransactionId × LogRecord) → List LogEntry × Log × Disk
  | [] => ([], log, disk)
  | (transaction, record) :: rest =>
    let (lsn, longer, grown) := log.write disk transaction record
    let (entries, last, written) := longer.writeAll grown rest
    (⟨lsn, transaction, log.last.lookup transaction, record⟩ :: entries, last, written)

theorem Extends.writeAll {log last : Log} {disk written : Disk} {front : Bytes}
    {entries added : List LogEntry} {records : List (TransactionId × LogRecord)}
    (hlocation : log.location ≠ [])
    (hextends : log.Extends front (disk.content log.location) entries)
    (hlengths : ∀ work ∈ records, logHeaderSize + work.2.encode.length < UInt32.size)
    (hwritten : log.writeAll disk records = (added, last, written)) :
    last.location = log.location ∧
      last.Extends front (written.content log.location) (entries ++ added) ∧
      disk.Rewritten log.location written := by
  induction records generalizing log disk entries added with
  | nil =>
    obtain ⟨rfl, rfl, rfl⟩ : [] = added ∧ log = last ∧ disk = written := by
      simpa [Log.writeAll] using hwritten
    exact ⟨rfl, by rwa [List.append_nil], .refl disk log.location⟩
  | cons work rest ih =>
    obtain ⟨transaction, record⟩ := work
    obtain ⟨longer, content, hwrite, hsame, hlonger⟩ := hextends.write hlocation transaction
      (hlengths (transaction, record) List.mem_cons_self)
    rcases hrest : longer.writeAll (disk.write log.location content) rest with
      ⟨later, final, done⟩
    simp only [Log.writeAll, hwrite, hrest, Prod.mk.injEq] at hwritten
    obtain ⟨rfl, rfl, rfl⟩ := hwritten
    rw [← hsame] at hlocation hlonger hrest ⊢
    obtain ⟨hfinal, hall, hother⟩ := ih hlocation hlonger
      (fun other hother => hlengths other (.tail _ hother)) hrest
    refine ⟨hfinal, by simpa using hall, ?_⟩
    exact ((Disk.Rewritten.refl disk longer.location).write hlocation content).trans hother

/-- The file consists of these records, and the log goes on behind them. -/
structure Holds (log : Log) (content : Content) (entries : List LogEntry) : Prop where
  bytes : content.toBytes = bytesOf (entries.map LogEntry.frame)
  stacked : Stacked 0 entries
  next : log.next = stopOf 0 entries
  /-- The length of each record has room in its header. -/
  short : ∀ entry ∈ entries, entry.length < UInt32.size
  /-- The previous record of the same transaction lies before. -/
  chained : ∀ entry ∈ entries, ∀ lsn, entry.previous = some lsn → lsn < entry.lsn
  last : ∀ pair ∈ log.last, pair.2 < log.next

theorem Extends.holds {log : Log} {content : Content} {entries : List LogEntry}
    (hextends : log.Extends [] content entries) : log.Holds content entries :=
  ⟨hextends.bytes, hextends.stacked, hextends.next, hextends.short, hextends.chained,
    hextends.last⟩

namespace Holds

variable {log : Log} {content : Content} {entries : List LogEntry} {transaction : TransactionId}
  {record : LogRecord}

theorem extends_nil (hholds : log.Holds content entries) : log.Extends [] content entries :=
  ⟨hholds.bytes, hholds.stacked, hholds.next, hholds.short, hholds.chained, hholds.last⟩

/-- A record that starts at a number of 64 bits fits its frame. -/
theorem fits (hholds : log.Holds content entries) {entry : LogEntry} (hentry : entry ∈ entries)
    (hlsn : entry.lsn < UInt64.size) : entry.Fits :=
  hholds.extends_nil.fits hentry hlsn

/-- The file ends where its last record ends. -/
theorem size (hholds : log.Holds content entries) : content.size = stopOf 0 entries :=
  hholds.extends_nil.size

/-- All records of a file whose length is a number of 64 bits fit their frames. -/
theorem fits_of_size (hholds : log.Holds content entries) (hsize : content.size < UInt64.size) :
    ∀ entry ∈ entries, entry.Fits :=
  hholds.extends_nil.fits_of_size hsize

/-- The log reads back the records of its file. -/
theorem records_eq (hholds : log.Holds content entries)
    (hfits : ∀ entry ∈ entries, entry.Fits) : log.records content = .ok entries := by
  rw [records, hholds.next]
  have hbytes : content.toBytes = bytesOf (entries.map LogEntry.frame) ++ [] := by
    rw [hholds.bytes, List.append_nil]
  exact hholds.stacked.readUntil hfits hbytes

theorem of_empty (location : Location) (recovered : Option TransactionId) {content : Content}
    (hempty : content.toBytes = []) : Holds ⟨location, 0, [], recovered⟩ content [] where
  bytes := hempty
  stacked := trivial
  next := rfl
  short := by simp
  chained := by simp
  last := by simp

/-- A record that is written to the disk comes behind those of the file. -/
theorem write {disk : Disk} (hlocation : log.location ≠ [])
    (hholds : log.Holds (disk.content log.location) entries) (transaction : TransactionId)
    (hlength : logHeaderSize + record.encode.length < UInt32.size) :
    ∃ longer content, log.write disk transaction record =
        (log.next, longer, disk.write log.location content) ∧
      longer.location = log.location ∧
      longer.Holds ((disk.write log.location content).content log.location)
        (entries ++ [⟨log.next, transaction, log.last.lookup transaction, record⟩]) := by
  obtain ⟨longer, content, hwrite, hsame, hlonger⟩ :=
    hholds.extends_nil.write hlocation transaction hlength
  exact ⟨longer, content, hwrite, hsame, hlonger.holds⟩

theorem writeAll {last : Log} {disk written : Disk} {added : List LogEntry}
    {records : List (TransactionId × LogRecord)} (hlocation : log.location ≠ [])
    (hholds : log.Holds (disk.content log.location) entries)
    (hlengths : ∀ work ∈ records, logHeaderSize + work.2.encode.length < UInt32.size)
    (hwritten : log.writeAll disk records = (added, last, written)) :
    last.location = log.location ∧
      last.Holds (written.content log.location) (entries ++ added) ∧
      disk.Rewritten log.location written := by
  obtain ⟨hfinal, hall, hother⟩ := hholds.extends_nil.writeAll hlocation hlengths hwritten
  exact ⟨hfinal, hall.holds, hother⟩

end Holds

/-! ## Crashes -/

/-- Opening a log on a disk opens what is in its file and writes back what is kept of it. -/
theorem openFile_eq_ok_iff {disk after : Disk} {path : String} {log : Log} :
    openFile disk path = (.ok log, after) ↔
      ∃ made content, disk.openFile (Path.ofString path) = .ok (log.location, made) ∧
        openContent log.location (disk.content log.location) = .ok (log, content) ∧
        after = made.write log.location content := by
  constructor
  · intro hopen
    unfold openFile at hopen
    split at hopen
    · exact absurd (Prod.mk.inj hopen).1 (by simp)
    · rename_i location made hfile
      rw [Disk.content_of_openFile hfile] at hopen
      split at hopen
      · exact absurd (Prod.mk.inj hopen).1 (by simp)
      · rename_i opened content hcontent
        obtain ⟨hlog, rfl⟩ := Prod.mk.inj hopen
        obtain rfl := Except.ok.inj hlog
        have hlocation := location_of_openContent hcontent
        exact ⟨made, content, hlocation ▸ hfile, hlocation ▸ hcontent, by rw [hlocation]⟩
  · rintro ⟨made, content, hfile, hcontent, rfl⟩
    simp only [openFile, hfile, Disk.content_of_openFile hfile, hcontent]

/-- A log that is opened on the first `size` bytes of a file holds the records that lie within
them. -/
theorem Holds.reopen {log : Log} {content : Content} {entries : List LogEntry}
    (hholds : log.Holds content entries) {size : Nat} (hsize : size < UInt64.size)
    (location : Location) :
    ∃ reopened after, openContent location (content.take size) = .ok (reopened, after) ∧
      reopened.location = location ∧ reopened.last = [] ∧
      reopened.recovered =
        ((entries.filter (·.stop ≤ size)).map LogEntry.transaction).max? ∧
      after.toBytes = content.toBytes.take (stopOf 0 (entries.filter (·.stop ≤ size))) ∧
      reopened.Holds after (entries.filter (·.stop ≤ size)) := by
  have hfits : ∀ entry ∈ entries, entry.lsn < size → entry.frame.Fits :=
    fun entry hentry hlsn => (hholds.fits hentry (Nat.lt_trans hlsn hsize)).frame
  obtain ⟨torn, hends, hcut⟩ := hholds.stacked.cut (Nat.zero_le size) hfits
  have hbytes : (content.take size).toBytes =
      bytesOf ((entries.filter (·.stop ≤ size)).map LogEntry.frame) ++ torn := by
    rw [Content.toBytes_take, hholds.bytes, ← hcut, Nat.sub_zero]
  have hwhole : ∀ frame ∈ (entries.filter (·.stop ≤ size)).map LogEntry.frame, frame.Fits := by
    intro frame hframe
    obtain ⟨entry, hentry, rfl⟩ := List.mem_map.mp hframe
    obtain ⟨hentry, hstop⟩ := List.mem_filter.mp hentry
    exact hfits entry hentry (Nat.lt_of_lt_of_le entry.lsn_lt_stop (of_decide_eq_true hstop))
  have hstacked : Stacked 0 (entries.filter (·.stop ≤ size)) := hholds.stacked.filter
  have hstop := hstacked.length
  rw [Nat.zero_add] at hstop
  have hafter : ((content.take size).take (stopOf 0 (entries.filter (·.stop ≤ size)))).toBytes =
      bytesOf ((entries.filter (·.stop ≤ size)).map LogEntry.frame) := by
    rw [Content.toBytes_take, hbytes, ← hstop, List.take_left]
  have hle : stopOf 0 (entries.filter (·.stop ≤ size)) ≤ size := by
    have hlength := congrArg List.length hbytes
    rw [Content.toBytes_take, List.length_take, List.length_append, hstop] at hlength
    omega
  have hopen := openContent_frames hwhole hbytes hends location
  rw [hstop, List.map_map] at hopen
  refine ⟨_, _, hopen, rfl, rfl, rfl, ?_, ?_⟩
  · rw [Content.toBytes_take, Content.toBytes_take, List.take_take, Nat.min_eq_left hle]
  · exact {
      bytes := hafter
      stacked := hstacked
      next := rfl
      short := fun entry hentry => hholds.short entry (List.mem_filter.mp hentry).1
      chained := fun entry hentry => hholds.chained entry (List.mem_filter.mp hentry).1
      last := by simp }

/-- A log and a disk after the log was opened again on a file of which the records `kept` are
whole. -/
structure Restored (location : Location) (before : Bytes) (kept : List LogEntry) (log : Log)
    (disk : Disk) : Prop where
  /-- The file ends where the last whole record ends. -/
  file : (disk.content location).toBytes = before.take (stopOf 0 kept)
  records : log.records (disk.content location) = .ok kept
  recovered : log.recovered = (kept.map LogEntry.transaction).max?
  /-- The next record is written behind the whole ones and read back there. -/
  continues : ∀ transaction record, logHeaderSize + record.encode.length < UInt32.size →
    ∃ longer grown, log.write disk transaction record = (stopOf 0 kept, longer, grown) ∧
      longer.records (grown.content location) =
        .ok (kept ++ [⟨stopOf 0 kept, transaction, none, record⟩])

/-- A log that holds records and has no chains yet is restored with them. -/
theorem Holds.restored {log : Log} {disk : Disk} {kept : List LogEntry} {before : Bytes}
    (hlocation : log.location ≠ []) (hholds : log.Holds (disk.content log.location) kept)
    (hfits : ∀ entry ∈ kept, entry.Fits) (hlast : log.last = [])
    (hfile : (disk.content log.location).toBytes = before.take (stopOf 0 kept))
    (hrecovered : log.recovered = (kept.map LogEntry.transaction).max?) :
    Restored log.location before kept log disk where
  file := hfile
  records := hholds.records_eq hfits
  recovered := hrecovered
  continues transaction record hlength := by
    obtain ⟨longer, content, hwrite, -, hlonger⟩ := hholds.write hlocation transaction hlength
    rw [hholds.next, hlast, List.lookup_nil] at hlonger
    rw [hholds.next] at hwrite
    refine ⟨longer, _, hwrite, hlonger.records_eq fun entry hentry => ?_⟩
    rcases List.mem_append.mp hentry with hentry | hentry
    · exact hfits entry hentry
    · obtain rfl := List.mem_singleton.mp hentry
      exact ⟨hlength, fun lsn hprevious => by simp at hprevious⟩

/-- Records are written to a log that was opened on an empty file.  Whatever number of bytes a
crash leaves of the file, the log opens again with the records that lie within them. -/
theorem crash_keeps_whole_records {disk made written : Disk} {path : String} {log last : Log}
    {records : List (TransactionId × LogRecord)} {entries : List LogEntry}
    (hopen : openFile disk path = (.ok log, made))
    (hempty : (disk.content log.location).toBytes = [])
    (hlengths : ∀ work ∈ records, logHeaderSize + work.2.encode.length < UInt32.size)
    (hwritten : log.writeAll made records = (entries, last, written)) (size : UInt64) :
    ∃ reopened after,
      openFile (written.cut log.location size.toNat) path = (.ok reopened, after) ∧
        Restored log.location (written.content log.location).toBytes
          (entries.filter (·.stop ≤ size.toNat)) reopened after := by
  obtain ⟨opened, nothing, hfile, hcontent, rfl⟩ := openFile_eq_ok_iff.mp hopen
  have hlocation := Disk.location_ne_nil_of_openFile hfile
  -- The log starts empty, so all that is in the file in the end was written to it.
  have hstart : log.Holds ((opened.write log.location nothing).content log.location) [] := by
    rw [openContent_empty hempty] at hcontent
    obtain ⟨hlog, rfl⟩ := Prod.mk.inj (Except.ok.inj hcontent)
    rw [Disk.content_write_same opened hlocation, ← hlog]
    exact .of_empty _ _ (by simp)
  obtain ⟨-, hall, hrewritten⟩ := hstart.writeAll hlocation hlengths hwritten
  rw [List.nil_append] at hall
  generalize log.location = location at hfile hlocation hall hrewritten ⊢
  obtain ⟨reopened, kept, hreopen, rfl, hlast, hrecovered, hbytes, hholds⟩ :=
    hall.reopen size.toNat_lt location
  have hfits : ∀ entry ∈ entries.filter (·.stop ≤ size.toNat), entry.Fits := by
    intro entry hentry
    have hstop : entry.stop ≤ size.toNat := of_decide_eq_true (List.mem_filter.mp hentry).2
    exact hholds.fits hentry
      (Nat.lt_of_lt_of_le entry.lsn_lt_stop (Nat.le_trans hstop (Nat.le_of_lt size.toNat_lt)))
  -- The path still leads to the file of the log, as only this file has changed.
  have hreached := (((Disk.rewritten_of_openFile hfile).write hlocation nothing).trans
    hrewritten).write hlocation ((written.content reopened.location).take size.toNat)
  have hagain := Disk.openFile_again hfile hreached (Disk.entry_write_same written hlocation _)
  have hcut : (written.cut reopened.location size.toNat).content reopened.location =
      (written.content reopened.location).take size.toNat :=
    Disk.content_write_same written hlocation _
  have hkept := Disk.content_write_same (written.cut reopened.location size.toNat) hlocation kept
  rw [← hcut] at hreopen
  exact ⟨reopened, _, openFile_eq_ok_iff.mpr ⟨_, kept, hagain, hreopen, rfl⟩,
    (hkept.symm ▸ hholds).restored hlocation hfits hlast (hkept.symm ▸ hbytes) hrecovered⟩

/-- Three records, the last of which is cut in its middle. -/
theorem crash_keeps_whole_records_sample :
    let log : Log := ⟨["log"], 0, [], none⟩
    let made : Disk := ⟨[(["log"], .file .empty)], []⟩
    let records : List (TransactionId × LogRecord) :=
      [(3, .commit), (7, .update ⟨5, 0⟩ [] [1]), (3, .abort)]
    let written := (log.writeAll made records).2.2
    ∃ reopened after, openFile (written.cut ["log"] 80) "log" = (.ok reopened, after) ∧
      Restored ["log"] (written.content ["log"]).toBytes
        [⟨0, 3, none, .commit⟩, ⟨25, 7, none, .update ⟨5, 0⟩ [] [1]⟩] reopened after := by
  intro log made records written
  have hopen : openFile ⟨[], []⟩ "log" = (.ok log, made) :=
    openFile_eq_ok_iff.mpr ⟨made, .empty, rfl, openContent_empty rfl ["log"], rfl⟩
  exact crash_keeps_whole_records hopen rfl (by decide) rfl 80

end Log

end HeapStore
