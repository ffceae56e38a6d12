import HeapStore.Proofs.Numbers

/-!
# Sessions on one log file

A session ends when the database is closed or by a crash, which leaves some first bytes of the log
file.  Records of the last transactions may be gone then, and their numbers are given out again.
Yet the numbers of a session are above those of all records that are left (`Session.Numbers`).  So
records with one number are of one transaction, over any number of sessions, and the previous
positions lead back through all of them that are left (`History.numbers_unique`).

The sessions that are over are known by what is left of their records, one list for each of them
(`Parted`); a cut takes away the ends of these lists.
-/

namespace HeapStore

/-! ## Records of which some are left -/

/-- The end of a row of linked records can be missing. -/
theorem Linked.cut {previous : Option Lsn} {entries : List LogEntry}
    (hlinked : Linked previous entries) (hrising : entries.Pairwise fun a b => a.stop ≤ b.stop)
    (size : Nat) : Linked previous (entries.filter (·.stop ≤ size)) := by
  induction entries generalizing previous with
  | nil => trivial
  | cons entry rest ih =>
      obtain ⟨hbehind, hrest⟩ := List.pairwise_cons.mp hrising
      by_cases hwhole : entry.stop ≤ size
      · rw [List.filter_cons_of_pos (by simpa using hwhole)]
        exact ⟨hlinked.1, ih hlinked.2 hrest⟩
      · have hnone : (entry :: rest).filter (·.stop ≤ size) = [] := by
          apply List.filter_eq_nil_iff.mpr
          refine List.forall_mem_cons.mpr ⟨by simpa using hwhole, fun other hother => ?_⟩
          have hle := hbehind other hother
          simp only [decide_eq_true_eq]
          omega
        rw [hnone]
        trivial

namespace Log

/-- Records that stand one behind the other end one behind the other. -/
theorem Stacked.pairwise_stop {position : Nat} {entries : List LogEntry}
    (hstacked : Stacked position entries) : entries.Pairwise fun a b => a.stop ≤ b.stop := by
  induction entries generalizing position with
  | nil => exact .nil
  | cons entry rest ih =>
      refine List.pairwise_cons.mpr ⟨fun other hother => ?_, ih hstacked.2⟩
      exact Nat.le_trans (hstacked.2.le_lsn other hother) (Nat.le_of_lt other.lsn_lt_stop)

/-- Records that end within the first bytes, all of them. -/
theorem stopOf_le {position size : Nat} {entries : List LogEntry} (hposition : position ≤ size)
    (hwhole : ∀ entry ∈ entries, entry.stop ≤ size) : stopOf position entries ≤ size := by
  induction entries generalizing position with
  | nil => exact hposition
  | cons entry rest ih =>
      rw [stopOf_cons]
      exact ih (hwhole entry List.mem_cons_self)
        fun other hother => hwhole other (List.mem_cons_of_mem _ hother)

/-- What was written behind the records of a file belongs to them. -/
theorem Holds.extended {log longer : Log} {kept content : Content} {old added : List LogEntry}
    (hholds : log.Holds kept old) (hextends : longer.Extends kept.toBytes content added) :
    longer.Holds content (old ++ added) := by
  have hlength : kept.toBytes.length = stopOf 0 old := by
    rw [← Content.size_eq_length, hholds.size]
  exact {
    bytes := by rw [hextends.bytes, hholds.bytes, List.map_append, bytesOf_append]
    stacked := stacked_append.mpr ⟨hholds.stacked, hlength ▸ hextends.stacked⟩
    next := by rw [hextends.next, stopOf_append, hlength]
    short := List.forall_mem_append.mpr ⟨hholds.short, hextends.short⟩
    chained := List.forall_mem_append.mpr ⟨hholds.chained, hextends.chained⟩
    last := hextends.last }

/-- Following the previous positions back from this position visits these records. -/
inductive Backwards (content : Content) : Option Lsn → List LogEntry → Prop
  | stop : Backwards content none []
  | visit {lsn : Lsn} {entry : LogEntry} {rest : List LogEntry}
      (hread : read content lsn = .ok entry) (hrest : Backwards content entry.previous rest) :
      Backwards content (some lsn) (entry :: rest)

/-- The position of the last of some records. -/
def lastOf (entries : List LogEntry) : Option Lsn :=
  entries.getLast?.map (·.lsn)

theorem lastOf_cons (entry : LogEntry) (rest : List LogEntry) (previous : Option Lsn) :
    (lastOf (entry :: rest)).or previous = (lastOf rest).or (some entry.lsn) := by
  simp only [lastOf, List.getLast?_cons]
  cases rest.getLast? <;> rfl

/-- From the last of linked records all are visited, and then those before the first one. -/
theorem backwards_of_linked {content : Content} {previous : Option Lsn}
    {entries visited : List LogEntry} (hlinked : Linked previous entries)
    (hread : ∀ entry ∈ entries, read content entry.lsn = .ok entry)
    (hback : Backwards content previous visited) :
    Backwards content ((lastOf entries).or previous) (entries.reverse ++ visited) := by
  induction entries generalizing previous visited with
  | nil => exact hback
  | cons entry rest ih =>
      obtain ⟨hfirst, hrest⟩ := List.forall_mem_cons.mp hread
      rw [← hlinked.1] at hback
      have hall := ih hlinked.2 hrest (.visit hfirst hback)
      rwa [lastOf_cons, List.reverse_cons, List.append_assoc]

end Log

/-! ## Sessions -/

/-- A session: the store as it was opened, what was done, and how many bytes of the log file its
end has left.  These are all of them if the database was closed, and any number after a crash. -/
structure Session where
  start : Store
  turns : List Turn
  left : Nat

namespace Session

/-- The numbers of the transactions that began in the session, in order. -/
def handed (session : Session) : List TransactionId :=
  session.start.handed session.turns

/-- What is left of the log file. -/
def remains (session : Session) : Content :=
  (session.start.follow session.turns).logContent.take session.left

/-- The record is one of a transaction of the session, written in a turn of this transaction. -/
def Wrote (session : Session) (entry : LogEntry) : Prop :=
  entry.transaction ∈ session.handed ∧ session.start.Wrote session.turns entry

/-- No table lies in the log file, transactions work while they run, and numbers do not run out.  No
file has a byte behind the largest position. -/
structure Proper (session : Session) : Prop where
  apart : session.start.catalog.Apart session.start.log.location
  transactional : ∀ turn ∈ session.turns, turn.operation.Transactional
  fitting : session.start.Fitting session.turns
  lawful : session.start.Lawful .empty session.turns
  ids : ∀ tid ∈ session.handed, tid.toNat < UInt64.size - 1
  room : session.left ≤ Content.maxPosition

/-- Each number that the session gives out is above those before it and above all in the log as it
was opened. -/
def Numbers (session : Session) : Prop :=
  ∃ old, session.start.records = .ok old ∧ session.handed.Pairwise (· < ·) ∧
    ∀ tid ∈ session.handed, ∀ entry ∈ old, entry.transaction < tid

end Session

/-- A store that was opened with this content in its log file, and in which tables were
registered. -/
inductive Store.OpenedOn (location : Location) (content : Content) : Store → Prop
  | opened {disk made : Disk} {armed : Failpoints} {logPath : String} {settings : Settings}
      {store : Store} (hopen : Store.openAt disk armed logPath settings = (.ok store, made))
      (hlocation : store.log.location = location) (hcontent : disk.content location = content) :
      OpenedOn location content store
  | registered {store : Store} (hstore : OpenedOn location content store) {operation : Operation}
      (hregisters : operation.registers = true) :
      OpenedOn location content (store.step operation).2

/-- Sessions on one log file, which is empty at first: each opens what the one before it has left
there.  All other files may be any. -/
inductive History (location : Location) : List Session → Content → Prop
  | start {content : Content} (hempty : content.toBytes = []) : History location [] content
  | session {sessions : List Session} {content : Content} {session : Session}
      (hhistory : History location sessions content)
      (hopened : session.start.OpenedOn location content) (hproper : session.Proper) :
      History location (sessions ++ [session]) session.remains

namespace Store.OpenedOn

variable {location : Location} {content : Content} {store : Store}

theorem was_opened (hopened : store.OpenedOn location content) : Opened store := by
  induction hopened with
  | opened hopen => exact .opened hopen
  | registered _ hregisters ih => exact .registered ih hregisters

theorem openContent (hopened : store.OpenedOn location content) :
    Log.openContent location content = .ok (store.log, store.logContent) := by
  induction hopened with
  | @opened disk made armed logPath settings store hopen hlocation hcontent =>
      obtain ⟨log, hlog, -, -, rfl⟩ := of_openAt hopen
      obtain ⟨file, kept, hfile, hkept, rfl⟩ := Log.openFile_eq_ok_iff.mp hlog
      rw [logContent, Disk.content_write_same file (Disk.location_ne_nil_of_openFile hfile),
        ← hcontent, ← hlocation]
      exact hkept
  | @registered store hstore operation hregisters ih =>
      have hidle := idle_of_registers store hregisters
      rw [logContent, hidle.log, hidle.files store.log.location]
      exact ih

end Store.OpenedOn

/-! ## What is left of sessions -/

/-- Records of sessions, one list for each of them: those with one number are of one session, and
linked. -/
structure Parted (sessions : List Session) (parts : List (List LogEntry)) : Prop where
  wrote : List.Forall₂ (fun session part => ∀ entry ∈ part, session.Wrote entry) sessions parts
  rising : parts.Pairwise fun older newer =>
    ∀ old ∈ older, ∀ new ∈ newer, old.transaction < new.transaction
  linked : ∀ tid, Linked none (parts.flatten.filter (·.transaction = tid))
  below : ∀ entry ∈ parts.flatten, entry.transaction.toNat < UInt64.size - 1

/-- How the log opens after these sessions: with what is left of their records. -/
structure Left (location : Location) (sessions : List Session) (content : Content) (log : Log)
    (kept : Content) (parts : List (List LogEntry)) : Prop where
  opens : Log.openContent location content = .ok (log, kept)
  holds : log.Holds kept parts.flatten
  room : kept.size ≤ Content.maxPosition
  recovered : log.recovered = (parts.flatten.map (·.transaction)).max?
  parted : Parted sessions parts

section

variable {location : Location} {sessions : List Session} {session : Session} {content : Content}
  {log : Log} {kept : Content} {parts : List (List LogEntry)}

/-- A cut leaves some records of each session. -/
theorem Parted.cut (hparted : Parted sessions parts) (hstacked : Log.Stacked 0 parts.flatten)
    (size : Nat) : Parted sessions (parts.map (List.filter (·.stop ≤ size))) where
  wrote := by
    refine List.forall₂_map_right_iff.mpr (hparted.wrote.imp fun session part hwrote => ?_)
    exact fun entry hentry => hwrote entry (List.mem_filter.mp hentry).1
  rising := by
    refine List.pairwise_map.mpr (hparted.rising.imp fun {older newer} hrising => ?_)
    exact fun old hold new hnew =>
      hrising old (List.mem_filter.mp hold).1 new (List.mem_filter.mp hnew).1
  linked tid := by
    have hrising := hstacked.pairwise_stop.sublist
      (List.filter_sublist (p := fun entry => decide (entry.transaction = tid)))
    have hcut := (hparted.linked tid).cut hrising size
    rw [List.filter_filter] at hcut
    rw [← List.filter_flatten, List.filter_filter]
    simpa only [Bool.and_comm] using hcut
  below := by
    intro entry hentry
    rw [← List.filter_flatten] at hentry
    exact hparted.below entry (List.mem_filter.mp hentry).1

/-- The records that were left can be read in the store that is opened. -/
theorem Left.records (hleft : Left location sessions content log kept parts) :
    log.records kept = .ok parts.flatten :=
  hleft.holds.records_eq
    (hleft.holds.fits_of_size (Nat.lt_of_le_of_lt hleft.room (by decide)))

/-- The largest of some transactions is one of them. -/
theorem mem_of_max? {transactions : List TransactionId} {most : TransactionId}
    (hmost : transactions.max? = some most) : most ∈ transactions := by
  have heither : Std.MaxEqOr TransactionId := by
    refine ⟨fun a b => ?_⟩
    show (if a ≤ b then b else a) = a ∨ (if a ≤ b then b else a) = b
    split
    · exact .inr rfl
    · exact .inl rfl
  exact List.max?_mem hmost

/-- The numbers of a new session are above those of all records that are left. -/
theorem Left.lt_next (hleft : Left location sessions content log kept parts) {start : Store}
    (hopened : start.OpenedOn location content) :
    ∀ entry ∈ parts.flatten, entry.transaction < start.nextTransaction := by
  intro entry hentry
  obtain ⟨rfl, rfl⟩ := Prod.mk.inj (Except.ok.inj (hopened.openContent.symm.trans hleft.opens))
  have hbegun := hopened.was_opened.begun
  obtain ⟨most, hrecovered, hle⟩ := hbegun.log.covers _ hleft.records entry hentry
  obtain ⟨last, hlast, rfl⟩ :=
    List.mem_map.mp (mem_of_max? (hleft.recovered.symm.trans hrecovered))
  rw [hbegun.first, hrecovered]
  exact UInt64.lt_of_le_of_lt hle (Store.lt_add_one_of_lt (hleft.parted.below last hlast))

/-- The records of a session come to those that were left. -/
theorem Parted.concat (hparted : Parted sessions parts) {added : List LogEntry}
    (hunder : session.start.Underway session.turns added) (hproper : session.Proper)
    (hnew : ∀ entry ∈ parts.flatten, entry.transaction < session.start.nextTransaction) :
    Parted (sessions ++ [session]) (parts ++ [added]) := by
  have hflatten : (parts ++ [added]).flatten = parts.flatten ++ added := by simp
  -- a number of the session is above all that are left
  have hlt : ∀ old ∈ parts.flatten, ∀ new ∈ added, old.transaction < new.transaction :=
    fun old hold new hadded => UInt64.lt_of_lt_of_le (hnew old hold)
      (hunder.numbered.given _ (hunder.wrote new hadded).1).1
  refine ⟨?_, ?_, ?_, ?_⟩
  · exact List.rel_append hparted.wrote (.cons hunder.wrote .nil)
  · refine List.pairwise_append.mpr ⟨hparted.rising, List.pairwise_singleton _ _, ?_⟩
    intro older holder newer hnewer old hold new hadded
    rw [List.mem_singleton.mp hnewer] at hadded
    exact hlt old (List.mem_flatten.mpr ⟨older, holder, hold⟩) new hadded
  · intro tid
    rw [hflatten]
    exact Store.linked_of_apart hparted.linked hunder.linked
      (fun old hold new hadded => UInt64.ne_of_lt (hlt old hold new hadded)) tid
  · rw [hflatten]
    refine List.forall_mem_append.mpr ⟨hparted.below, fun entry hentry => ?_⟩
    exact hproper.ids _ (hunder.wrote entry hentry).1

/-- An empty log file opens without a record. -/
theorem left_nil (hempty : content.toBytes = []) (location : Location) :
    Left location [] content ⟨location, 0, [], none⟩ (content.take 0) [] where
  opens := Log.openContent_empty hempty location
  holds := .of_empty location none (by simp)
  room := by simp [Content.size_eq_length]
  recovered := rfl
  parted := ⟨.nil, .nil, fun _ => trivial, by simp⟩

theorem Session.Proper.underway (hproper : session.Proper)
    (hopened : session.start.OpenedOn location content) :
    ∃ added, session.start.Underway session.turns added :=
  hopened.was_opened.follow hproper.apart session.turns hproper.transactional hproper.fitting
    hproper.lawful hproper.ids

/-- What a session finds in the log and gives out, and what it leaves of the log. -/
theorem Left.concat (hleft : Left location sessions content log kept parts)
    (hopened : session.start.OpenedOn location content) (hproper : session.Proper) :
    session.Numbers ∧ ∃ reopened after later,
      Left location (sessions ++ [session]) session.remains reopened after later := by
  obtain ⟨added, hunder⟩ := hproper.underway hopened
  have hnew := hleft.lt_next hopened
  obtain ⟨hlog, hkept⟩ := Prod.mk.inj (Except.ok.inj (hopened.openContent.symm.trans hleft.opens))
  have hrecords : session.start.records = .ok parts.flatten := by
    rw [Store.records, hlog, hkept]
    exact hleft.records
  refine ⟨⟨parts.flatten, hrecords, hunder.numbered.rising, ?_⟩, ?_⟩
  · exact fun tid htid entry hentry =>
      UInt64.lt_of_lt_of_le (hnew entry hentry) (hunder.numbered.given tid htid).1
  · have hextends := hunder.log
    rw [hkept] at hextends
    have hholds := hleft.holds.extended hextends
    have hflatten : (parts ++ [added]).flatten = parts.flatten ++ added := by simp
    have hstacked := hholds.stacked
    rw [← hflatten] at hholds hstacked
    -- a crash leaves the records that lie within the first bytes
    obtain ⟨reopened, after, hopen, -, -, hrecovered, -, hleftover⟩ :=
      hholds.reopen (Nat.lt_of_le_of_lt hproper.room (by decide)) location
    have hsize : after.size ≤ session.left := by
      rw [hleftover.size]
      exact Log.stopOf_le (Nat.zero_le _) fun entry hentry =>
        of_decide_eq_true (List.mem_filter.mp hentry).2
    rw [List.filter_flatten] at hrecovered hleftover
    exact ⟨reopened, after, _, {
      opens := hopen
      holds := hleftover
      room := Nat.le_trans hsize hproper.room
      recovered := hrecovered
      parted := (hleft.parted.concat hunder hproper hnew).cut hstacked session.left }⟩

theorem History.left (hhistory : History location sessions content) :
    (∀ session ∈ sessions, session.Numbers) ∧
      ∃ log kept parts, Left location sessions content log kept parts := by
  induction hhistory with
  | start hempty => exact ⟨by simp, _, _, _, left_nil hempty location⟩
  | session _ hopened hproper ih =>
      obtain ⟨hall, log, kept, parts, hleft⟩ := ih
      obtain ⟨hnumbers, hlater⟩ := hleft.concat hopened hproper
      exact ⟨List.forall_mem_append.mpr ⟨hall, List.forall_mem_singleton.mpr hnumbers⟩, hlater⟩

end

/-! ## Records of one transaction -/

/-- What is left in the log of the records of the sessions, one list for each of them.  A record was
written by the transaction that had its number in its session.  The numbers of later sessions are
larger and those of one session differ, so records with one number are of one transaction.
Following the previous positions back from the last of them visits exactly these records. -/
structure Survivors (sessions : List Session) (log : Log) (content : Content)
    (parts : List (List LogEntry)) : Prop where
  records : log.records content = .ok parts.flatten
  wrote : List.Forall₂ (fun session part => ∀ entry ∈ part, session.Wrote entry) sessions parts
  rising : parts.Pairwise fun older newer =>
    ∀ old ∈ older, ∀ new ∈ newer, old.transaction < new.transaction
  backwards : ∀ tid, let own := parts.flatten.filter (·.transaction = tid)
    Log.Backwards content (Log.lastOf own) own.reverse

/-- Numbers of transactions are unique over sessions.  In each session those that are given out rise
and are above all in the log as it was opened.  After any sessions the log opens again, and what is
left of the records with one number was written by one transaction, and is linked. -/
theorem History.numbers_unique {location : Location} {sessions : List Session} {content : Content}
    (hhistory : History location sessions content) :
    (∀ session ∈ sessions, session.Numbers) ∧
      ∃ log kept parts, Log.openContent location content = .ok (log, kept) ∧
        Survivors sessions log kept parts := by
  obtain ⟨hnumbers, log, kept, parts, hleft⟩ := hhistory.left
  refine ⟨hnumbers, log, kept, parts, hleft.opens, {
    records := hleft.records
    wrote := hleft.parted.wrote
    rising := hleft.parted.rising
    backwards := fun tid => ?_ }⟩
  have hread : ∀ entry ∈ parts.flatten.filter (·.transaction = tid),
      Log.read kept entry.lsn = .ok entry := fun entry hentry =>
    hleft.holds.extends_nil.read hleft.room entry (List.mem_filter.mp hentry).1
  have hback := Log.backwards_of_linked (hleft.parted.linked tid) hread .stop
  rwa [Option.or_none, List.append_nil] at hback

/-! ## A sample -/

namespace Session

/-- Pages of 5 bytes have room for one number. -/
def smallSettings : Settings :=
  { Settings.standard with capacity := 2, pageSize := 5 }

/-- The store that opening gives with this log. -/
def opened (disk : Disk) (log : Log) : Store where
  disk := disk
  armed := .unarmed
  log := log
  catalog := .empty 5
  pool := ⟨smallSettings, [], [], 0, .empty⟩
  nextTransaction := match log.recovered with
    | none => 1
    | some largest => largest + 1

/-- The same store with the table of the sample. -/
def withTable (disk : Disk) (log : Log) : Store :=
  ((opened disk log).step (.openTable "a" "a" Store.sampleSchema none 5)).2

theorem openedOn_withTable {disk made : Disk} {log : Log} {kept : Content}
    (hfile : disk.openFile (Path.ofString "log") = .ok (["log"], made))
    (hcontent : Log.openContent ["log"] (disk.content ["log"]) = .ok (log, kept)) :
    (withTable (made.write ["log"] kept) log).OpenedOn ["log"] (disk.content ["log"]) := by
  have hlocation := Log.location_of_openContent hcontent
  rw [← hlocation] at hfile hcontent ⊢
  have hlog : Log.openFile disk "log" = (.ok log, made.write log.location kept) :=
    Log.openFile_eq_ok_iff.mpr ⟨made, kept, hfile, hcontent, rfl⟩
  have hopen : Store.openAt disk .unarmed "log" smallSettings
      = (.ok (opened (made.write log.location kept) log), made.write log.location kept) := by
    simp only [Store.openAt, hlog]
    rfl
  exact .registered (.opened hopen rfl rfl) rfl

/-- A disk with an empty log file. -/
def blankDisk : Disk :=
  ⟨[(["log"], .file .empty)], []⟩

/-- Two transactions.  A crash tears the record of the second commit. -/
def torn : Session where
  start := withTable (blankDisk.write ["log"] (Content.empty.take 0)) ⟨["log"], 0, [], none⟩
  turns := [.step .begin, .step (.insert 1 Store.sampleTable (Store.sampleRow 7)),
    .step (.commit 1), .step .begin, .step (.commit 2)]
  left := 98

/-- The disk after the crash. -/
def tornDisk : Disk :=
  (torn.start.follow torn.turns).disk.cut ["log"] torn.left

/-- The records that the crash leaves. -/
def tornEntries : List LogEntry :=
  [⟨0, 1, none, .update ⟨Store.sampleTable, 0⟩ (Bytes.zeros 5) [1, 0, 0, 0, 7]⟩,
    ⟨51, 1, some 0, .commit⟩]

/-- The number of the second transaction is given out again, and the database is closed. -/
def resumed : Session where
  start := withTable (tornDisk.write ["log"] ((tornDisk.content ["log"]).take 76))
    ⟨["log"], 76, [], some 1⟩
  turns := [.step .begin, .step (.insert 2 Store.sampleTable (Store.sampleRow 8)),
    .step (.commit 2)]
  left := 152

/-- A log file that is there is opened. -/
theorem openFile_log {disk : Disk} {content : Content} (hroot : disk.workingDirectory = [])
    (hentry : disk.entry? ["log"] = some (.file content)) :
    disk.openFile (Path.ofString "log") = .ok (["log"], disk) := by
  have habove : disk.directoryAt (disk.start ⟨false, ["log"]⟩) [] = .ok [] := by
    rw [Disk.start, hroot]
    rfl
  exact Disk.openFile_of_file rfl rfl habove rfl (by decide +kernel) hentry

theorem openedOn_torn : torn.start.OpenedOn ["log"] .empty :=
  have hfile : blankDisk.openFile (Path.ofString "log") = .ok (["log"], blankDisk) := rfl
  openedOn_withTable hfile (Log.openContent_empty rfl ["log"])

theorem openedOn_resumed : resumed.start.OpenedOn ["log"] torn.remains := by
  have hfits : ∀ frame ∈ tornEntries.map LogEntry.frame, frame.Fits := by
    simp only [tornEntries, List.map_cons, List.map_nil, List.forall_mem_cons]
    exact ⟨⟨by decide +kernel, by decide⟩, ⟨by decide, by decide⟩, by simp⟩
  have hcut : LogFrame.Fits ⟨2, noPrevious, [2]⟩ := ⟨by decide, by decide⟩
  have hbytes : (tornDisk.content ["log"]).toBytes
      = Log.bytesOf (tornEntries.map LogEntry.frame)
        ++ (LogFrame.bytes ⟨2, noPrevious, [2]⟩).take 22 := by decide +kernel
  have hends : Log.Ends ((LogFrame.bytes ⟨2, noPrevious, [2]⟩).take 22) :=
    Log.ends_take hcut (by decide)
  have hlength : (Log.bytesOf (tornEntries.map LogEntry.frame)).length = 76 := by decide +kernel
  have hlargest : ((tornEntries.map LogEntry.frame).map LogFrame.transaction).max? = some 1 := by
    decide +kernel
  have hcontent := Log.openContent_frames hfits hbytes hends ["log"]
  rw [hlength, hlargest] at hcontent
  have hlocation : (torn.start.follow torn.turns).log.location = ["log"] := by decide +kernel
  have hremains : tornDisk.content ["log"] = torn.remains := by
    rw [tornDisk, Disk.cut, Disk.content_write_same _ (by simp), remains, Store.logContent,
      hlocation]
  rw [← hremains]
  have hentry : tornDisk.entry? ["log"]
      = some (.file (((torn.start.follow torn.turns).disk.content ["log"]).take torn.left)) := by
    rw [tornDisk, Disk.cut, Disk.entry_write_same _ (by simp)]
  simp only [resumed]
  exact openedOn_withTable (openFile_log (by decide +kernel) hentry) hcontent

theorem handed_torn : torn.handed = [1, 2] := by decide +kernel

theorem handed_resumed : resumed.handed = [2] := by decide +kernel

theorem proper_torn : torn.Proper where
  apart := by decide +kernel
  transactional := by
    simp [torn, Turn.operation, Operation.Transactional, Store.valid_sampleRow]
  fitting := by decide +kernel
  lawful := by decide +kernel
  ids := by
    rw [handed_torn]
    exact List.forall_mem_cons.mpr ⟨by decide, List.forall_mem_singleton.mpr (by decide)⟩
  room := by decide

theorem proper_resumed : resumed.Proper where
  apart := by decide +kernel
  transactional := by
    simp [resumed, Turn.operation, Operation.Transactional, Store.valid_sampleRow]
  fitting := by decide +kernel
  lawful := by decide +kernel
  ids := by
    rw [handed_resumed]
    exact List.forall_mem_singleton.mpr (by decide)
  room := by decide

end Session

/-- The second number is given out twice, for no record of the first transaction with it is left. -/
theorem History.numbers_unique_sample :
    [Session.torn, Session.resumed].map Session.handed = [[1, 2], [2]] ∧
      (∀ session ∈ [Session.torn, Session.resumed], session.Numbers) ∧
      ∃ log kept parts, Log.openContent ["log"] Session.resumed.remains = .ok (log, kept) ∧
        Survivors [Session.torn, Session.resumed] log kept parts :=
  ⟨by simp only [List.map_cons, List.map_nil, Session.handed_torn, Session.handed_resumed],
    History.numbers_unique
      (.session (.session (.start rfl) Session.openedOn_torn Session.proper_torn)
        Session.openedOn_resumed Session.proper_resumed)⟩

end HeapStore
