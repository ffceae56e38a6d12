import HeapStore.Proofs.Browsing
import HeapStore.Proofs.Eviction
import HeapStore.Proofs.Numbers
import HeapStore.Proofs.Opening
import HeapStore.Proofs.Registry
import HeapStore.Proofs.SoundPrefix

/-!
# What inspection counts and leaves

Inspection opens the log, which cuts its file to the longest row of frames at its front
(`Log.cut_of_openFile`), registers the tables of the catalog file, each with a name, an identity and
a file of its own (`Opened.listed`), and lets one transaction browse them
(`Store.summarizeAll_counts`).

`Store.inspect_counts` puts this together, from the catalog text to the bytes on the disk: the
summaries are those of the table files as they were before, in the order of the names, and the disk
is as before but for directories and empty files that were missing and for the log, which is cut and
has one record more.
-/

namespace HeapStore

/-! ## The log that was opened -/

namespace Log

/-- The log goes on behind these frames, the longest row of them at the front of its file, with the
largest of their transactions and no chain, and its file was cut to them. -/
structure Cut (disk made : Disk) (log : Log) (frames : List LogFrame) : Prop where
  location : log.location ≠ []
  last : log.last = []
  recovered : log.recovered = (frames.map LogFrame.transaction).max?
  longest : Longest (disk.content log.location).toBytes frames
  file : (made.content log.location).toBytes = bytesOf frames
  others : disk.Rewritten log.location made

theorem cut_of_openFile {disk made : Disk} {path : String} {log : Log}
    (hopen : openFile disk path = (.ok log, made)) : ∃ frames, Cut disk made log frames := by
  obtain ⟨opened, kept, hfile, hcontent, rfl⟩ := openFile_eq_ok_iff.mp hopen
  obtain ⟨stop, recovered, hwalk, hlog, rfl⟩ := openContent_eq_ok_iff.mp hcontent
  have hlocation := Disk.location_ne_nil_of_openFile hfile
  obtain ⟨frames, rest, hframes, hbytes, hnone, hends⟩ :=
    walk_cases 0 none (disk.content log.location)
  rw [hwalk, Nat.zero_add, foldl_maxTransaction] at hends
  rcases hends with ⟨-, hfailed⟩ | ⟨-, hended⟩
  · exact absurd hfailed (by simp)
  · obtain ⟨rfl, rfl⟩ := Prod.mk.inj (Except.ok.inj hended)
    refine ⟨frames, hlocation, congrArg Log.last hlog, congrArg Log.recovered hlog,
      longest_of_frameless hframes hbytes hnone, ?_,
      (Disk.rewritten_of_openFile hfile).write hlocation _⟩
    rw [Disk.content_write_same opened hlocation, Content.toBytes_take, hbytes, List.take_left]

/-- Away from the log, files have what was in them before it was opened. -/
theorem Cut.content_other {disk made grown : Disk} {log : Log} {frames : List LogFrame}
    (hcut : Cut disk made log frames) (hgrown : made.Grown grown) {location : Location}
    (hother : location ≠ log.location) : grown.content location = disk.content location := by
  rw [hgrown.sameContents location, Disk.content, hcut.others.other location hother]
  rfl

/-- The transaction that comes behind all that were recovered. -/
def following (log : Log) : TransactionId :=
  match log.recovered with
  | none => 1
  | some largest => largest + 1

theorem covers_foldl {transactions : List TransactionId} {largest : Option TransactionId}
    {tid : TransactionId} (htid : Covers largest tid ∨ tid ∈ transactions) :
    Covers (transactions.foldl maxTransaction largest) tid := by
  induction transactions generalizing largest with
  | nil => exact htid.resolve_right List.not_mem_nil
  | cons first transactions ih =>
      apply ih
      rcases htid with hcovers | htid
      · exact .inl (hcovers.maxTransaction first)
      · rcases List.mem_cons.mp htid with rfl | htid
        · exact .inl (covers_maxTransaction largest tid)
        · exact .inr htid

/-- While numbers are left, the following one is above those of all frames. -/
theorem Cut.lt_following {disk made : Disk} {log : Log} {frames : List LogFrame}
    (hcut : Cut disk made log frames)
    (htids : ∀ largest, log.recovered = some largest → largest.toNat < UInt64.size - 1) :
    ∀ frame ∈ frames, frame.transaction < log.following := by
  intro frame hframe
  have hcovers : Covers log.recovered frame.transaction := by
    rw [hcut.recovered, ← foldl_maxTransaction]
    exact covers_foldl (.inr (List.mem_map_of_mem hframe))
  obtain ⟨largest, hlargest, hle⟩ := hcovers
  rw [following, hlargest]
  exact UInt64.lt_of_le_of_lt hle (Store.lt_add_one_of_lt (htids largest hlargest))

/-- A record of a log without chains is the frame that is written behind the others. -/
theorem toBytes_after {log : Log} (hlocation : log.location ≠ []) (hlast : log.last = [])
    (disk : Disk) (tid : TransactionId) (record : LogRecord) :
    ((log.after disk tid record).2.content log.location).toBytes =
      (disk.content log.location).toBytes ++ encodeFrame tid none record := by
  show ((disk.write log.location ((disk.content log.location).append
    (encodeFrame tid (log.last.lookup tid) record))).content log.location).toBytes = _
  rw [Disk.content_write_same disk hlocation, Content.toBytes_append, hlast]
  rfl

theorem rewritten_after {log : Log} (hlocation : log.location ≠ []) (disk : Disk)
    (tid : TransactionId) (record : LogRecord) :
    disk.Rewritten log.location (log.after disk tid record).2 :=
  (Disk.Rewritten.refl disk log.location).write hlocation _

end Log

namespace Store

open HeapStore.Action

/-! ## The tables that were registered -/

variable {store : Store}

/-- The registered tables have names and identities of their own, and their files are there. -/
structure Listed (store : Store) : Prop where
  keyed : store.catalog.Keyed TableId.ofLocation
  files : ∀ entry ∈ store.catalog.entries,
    ∃ content, store.disk.entry? entry.table.location = some (.file content)

theorem listed_openTable (path name : String) (schema : Schema) (primaryKey : Option String)
    (pageSize : Nat) (store : Store) (hlisted : store.Listed) :
    ((openTable path name schema primaryKey pageSize).perform store).2.Listed := by
  have hgrown := Table.grown_openFile store.disk path schema pageSize
  have hold : ∀ entry ∈ store.catalog.entries, ∃ content,
      Disk.entry? (Table.openFile store.disk path schema pageSize).2 entry.table.location
        = some (.file content) := by
    intro entry hentry
    obtain ⟨content, hfile⟩ := hlisted.files entry hentry
    exact ⟨content, hgrown.file hfile⟩
  rw [perform_openTable]
  rcases hopen : Table.openFile store.disk path schema pageSize with ⟨opened, made⟩
  rw [hopen] at hold
  cases opened with
  | error error => exact ⟨hlisted.keyed, hold⟩
  | ok table =>
      simp only
      cases hadd : store.catalog.add table name primaryKey with
      | error error => exact ⟨hlisted.keyed, hold⟩
      | ok catalog =>
          obtain rfl := Catalog.eq_of_register
            (show store.catalog.register ⟨name, primaryKey, table⟩ = .ok catalog from hadd)
          refine ⟨hlisted.keyed.replaced (Table.of_openFile hopen).1, ?_⟩
          intro entry hentry
          rcases Catalog.mem_replaced_iff.mp hentry with rfl | ⟨hkept, -⟩
          · exact Table.file_of_openFile hopen
          · exact hold entry hkept

theorem Opened.listed (hopened : Opened store) : store.Listed := by
  induction hopened with
  | opened hopen =>
      obtain ⟨log, -, -, -, rfl⟩ := of_openAt hopen
      exact ⟨Catalog.keyed_empty _ _, by simp [Catalog.empty]⟩
  | registered hstore hregisters ih =>
      exact related_of_registers (fun before after => before.Listed → after.Listed)
        (fun _ => id) (fun hfirst hsecond => hsecond ∘ hfirst) listed_openTable
        (fun store _ => ⟨Catalog.keyed_clear _ _, by simp [Catalog.clear]⟩) _ hregisters ih

/-- The store that opening gives on a log, with no tables yet. -/
def onLog (disk : Disk) (armed : Failpoints) (log : Log) (settings : Settings) : Store where
  disk := disk
  armed := armed
  log := log
  catalog := .empty settings.pageSize
  pool := ⟨settings, [], [], 0, .empty⟩
  nextTransaction := log.following

theorem openAt_eq {disk made : Disk} {logPath : String} {log : Log} {settings : Settings}
    (hlog : Log.openFile disk logPath = (.ok log, made)) (hsettings : settings.validate = .ok ())
    (armed : Failpoints) :
    openAt disk armed logPath settings = (.ok (onLog made armed log settings), made) := by
  have hpool : Pool.create settings (.empty settings.pageSize)
      = .ok ⟨settings, [], [], 0, .empty⟩ := by
    simp [Pool.create, hsettings, Catalog.empty, bind, Except.bind, pure, Except.pure]
  simp only [openAt, hlog, hpool]
  rfl

theorem capacity_of_validate {settings : Settings} (hsettings : settings.validate = .ok ()) :
    0 < settings.capacity := by
  unfold Settings.validate at hsettings
  split at hsettings
  · exact absurd hsettings (by simp)
  · rename_i hcapacity
    exact Nat.pos_of_ne_zero hcapacity

/-! ## One transaction over all tables -/

/-- The store after a transaction began. -/
def withNext (store : Store) : Store :=
  { store with nextTransaction := store.nextTransaction + 1 }

theorem perform_begin (store : Store) :
    begin.perform store = (.ok store.nextTransaction, store.withNext) := rfl

theorem browsing_withNext (hcoherent : Coherent store [])
    (hlocks : store.pool.locks = .empty) :
    Browsing store.withNext store.nextTransaction store.withNext := by
  refine ⟨hcoherent.congr rfl rfl rfl rfl, ?_, rfl⟩
  show store.pool.locks.SharedBy store.nextTransaction
  rw [hlocks]
  exact LockTable.sharedBy_empty _

/-- All tables are summarized in the order of their names, and one record is written. -/
theorem summarizeAll_counts (hcoherent : Coherent store []) (hlocks : store.pool.locks = .empty)
    (hroom : 0 < store.pool.settings.capacity) (hsmall : store.catalog.Small store.disk)
    (hlisted : store.Listed)
    (hlegible : ∀ entry ∈ store.catalog.entries,
      entry.table.Legible (store.disk.content entry.table.location)) :
    ∃ summaries after, summarizeAll.perform store = (.ok summaries, after) ∧
      List.Forall₂ (Summarizes store.disk) store.catalog.sorted summaries ∧
      after.disk = (store.log.after store.disk store.nextTransaction .commit).2 := by
  have hmem : ∀ entry ∈ store.withNext.catalog.sorted, entry ∈ store.catalog.entries :=
    fun entry hentry => (perm_inOrder _ _).mem_iff.mp hentry
  obtain ⟨summaries, mid, hsummaries, hmid, hcounts⟩ :=
    (browsing_withNext hcoherent hlocks).summaries hroom hsmall
      (fun entry hentry => hlisted.keyed.entry?_eq_some_iff.mpr ⟨hmem entry hentry, rfl⟩)
      fun entry hentry => hlegible entry (hmem entry hentry)
  obtain ⟨after, hcommit, hdisk⟩ := hmid.commit hsmall
  refine ⟨summaries, after, ?_, hcounts, hdisk⟩
  simp only [summarizeAll, perform_bind, perform_begin, perform_tryCatch, perform_get,
    Catalog.tableIds, hsummaries, hcommit, perform_pure]

/-! ## Inspection from start to end -/

/-- What an inspection of the tables of a catalog has made of the disk: the tables have their files
with what was in them, what else was missing and is there now is a directory or an empty file, and
the log file has its longest row of frames and behind them the commit of a new transaction. -/
structure Inspected (disk : Disk) (log : Log) (catalog : Catalog) (after : Disk) : Prop where
  tables : ∀ entry ∈ catalog.entries,
    after.entry? entry.table.location = some (.file (disk.content entry.table.location))
  others : ∀ location, location ≠ log.location →
    after.entry? location = disk.entry? location ∨ disk.entry? location = none ∧
      (after.entry? location = some .directory ∨ after.entry? location = some (.file .empty))
  logged : ∃ frames : List LogFrame,
    Log.Longest (disk.content log.location).toBytes frames ∧
      (∀ frame ∈ frames, frame.transaction < log.following) ∧
      (after.content log.location).toBytes
        = Log.bytesOf frames ++ encodeFrame log.following none .commit

theorem inspected_after {disk made : Disk} {log : Log} {frames : List LogFrame}
    (hcut : Log.Cut disk made log frames) (hgrown : made.Grown store.disk)
    (hbelow : ∀ frame ∈ frames, frame.transaction < log.following) (hlisted : store.Listed)
    (hapart : store.catalog.Apart log.location) :
    Inspected disk log store.catalog (log.after store.disk log.following .commit).2 := by
  have hwritten := Log.rewritten_after hcut.location store.disk log.following .commit
  refine ⟨?_, ?_, frames, hcut.longest, hbelow, ?_⟩
  · intro entry hentry
    have hother := hapart entry hentry
    obtain ⟨content, hfile⟩ := hlisted.files entry hentry
    have hsame := hcut.content_other hgrown hother
    rw [Disk.content, hfile] at hsame
    rw [hwritten.other _ hother, hfile, ← hsame]
  · intro location hother
    rw [hwritten.other location hother, ← hcut.others.other location hother]
    exact hgrown location
  · rw [Log.toBytes_after hcut.location hcut.last, hgrown.sameContents, hcut.file]

theorem Summarizes.congr {disk other : Disk} {entry : CatalogEntry} {summary : TableSummary}
    (hcounts : Summarizes disk entry summary)
    (hsame : other.content entry.table.location = disk.content entry.table.location) :
    Summarizes other entry summary :=
  ⟨hcounts.name, hcounts.table, by rw [hsame, hcounts.pages], by rw [hsame, hcounts.rows]⟩

theorem step_loadSchema (path : String) (store : Store) :
    (store.step (.loadSchema path)).2 = ((loadSchema path).perform store).2 := by
  show (Action.perform (_ <$> loadSchema path) store).2 = _
  rw [perform_map]

/-- Inspection succeeds with a summary of each registered table, in the order of the names, and
changes nothing but the log. -/
theorem inspect_counts {disk made : Disk} {armed : Failpoints} {catalogPath logPath : String}
    {settings : Settings} {log : Log} {ids : List TableId} {loaded : Store}
    (hsettings : settings.validate = .ok ())
    (hlog : Log.openFile disk logPath = (.ok log, made))
    (htids : ∀ largest, log.recovered = some largest → largest.toNat < UInt64.size - 1)
    (hload : (loadSchema catalogPath).perform (onLog made armed log settings) = (.ok ids, loaded))
    (hapart : loaded.catalog.Apart log.location) (hsmall : loaded.catalog.Small disk)
    (hlegible : ∀ entry ∈ loaded.catalog.entries,
      entry.table.Legible (disk.content entry.table.location)) :
    ∃ summaries after, inspect disk armed catalogPath logPath settings = (.ok summaries, after) ∧
      loaded.catalog.sorted.Perm loaded.catalog.entries ∧
      loaded.catalog.sorted.Pairwise (fun a b => a.name < b.name) ∧
      List.Forall₂ (Summarizes disk) loaded.catalog.sorted summaries ∧
      Inspected disk log loaded.catalog after := by
  have hopen := openAt_eq hlog hsettings armed
  have hregisters : (Operation.loadSchema catalogPath).registers = true := rfl
  have hstep : ((onLog made armed log settings).step (.loadSchema catalogPath)).2 = loaded := by
    rw [step_loadSchema, hload]
  have hopened : Opened loaded := hstep ▸ Opened.registered (.opened hopen) hregisters
  have hidle : (onLog made armed log settings).Idle loaded :=
    hstep ▸ idle_of_registers _ hregisters
  have hgrown : made.Grown loaded.disk := hstep ▸ grown_of_registers _ hregisters
  have hpool : loaded.pool = (onLog made armed log settings).pool :=
    hstep ▸ pool_of_registers _ hregisters
  obtain ⟨frames, hcut⟩ := Log.cut_of_openFile hlog
  have hsame : ∀ entry ∈ loaded.catalog.entries,
      loaded.disk.content entry.table.location = disk.content entry.table.location :=
    fun entry hentry => hcut.content_other hgrown (hapart entry hentry)
  obtain ⟨summaries, last, hrun, hcounts, hdisk⟩ := summarizeAll_counts
    (hopened.fresh.coherent (hidle.log ▸ hapart)) hopened.fresh.locks
    (hpool ▸ capacity_of_validate hsettings)
    (Catalog.small_congr (fun entry hentry => by rw [hsame entry hentry]) hsmall) hopened.listed
    fun entry hentry => hsame entry hentry ▸ hlegible entry hentry
  have hperm : loaded.catalog.sorted.Perm loaded.catalog.entries := perm_inOrder _ _
  refine ⟨summaries, last.disk, ?_, hperm, hopened.listed.keyed.pairwise_sorted, ?_, ?_⟩
  · simp only [inspect, hopen, perform_bind, hload, hrun]
  · have hsorted : ∀ entry ∈ loaded.catalog.sorted,
        disk.content entry.table.location = loaded.disk.content entry.table.location :=
      fun entry hentry => (hsame entry (hperm.mem_iff.mp hentry)).symm
    refine ((List.forall₂_and_left _ _).mpr ⟨hsorted, hcounts⟩).imp ?_
    rintro entry summary ⟨hcontent, hsummary⟩
    exact hsummary.congr hcontent
  · rw [hdisk, hidle.log, hidle.next]
    exact inspected_after hcut hgrown (hcut.lt_following htids) hopened.listed hapart

/-- Two tables, in whose files are two whole pages and a part of one, and nothing; one page has room
in the cache, and the log has one commit and a torn end. -/
theorem inspect_counts_two_tables :
    let commit : LogFrame := ⟨7, noPrevious, [2]⟩
    let pages : Bytes := [5] ++ Bytes.zeros 15 ++ [2] ++ Bytes.zeros 15 ++ [1, 1, 1]
    let disk : Disk := ⟨[
      (["tables"], .file (.ofBytes "b (x int)\na (x int)".toUTF8.toList)),
      (["b.dat"], .file (.ofBytes pages)),
      (["log"], .file (.ofBytes (commit.bytes ++ commit.bytes.take 10)))], []⟩
    let settings := { Settings.standard with capacity := 1, pageSize := 16 }
    let log : Log := ⟨["log"], 25, [], some 7⟩
    let made := disk.write ["log"] ((disk.content ["log"]).take 25)
    let loaded := ((loadSchema "tables").perform (onLog made .unarmed log settings)).2
    ∃ summaries after, inspect disk .unarmed "tables" "log" settings = (.ok summaries, after) ∧
      List.Forall₂ (Summarizes disk) loaded.catalog.sorted summaries ∧
      loaded.catalog.sorted.map (fun entry => (entry.name,
          (entry.table.wholePages (disk.content entry.table.location)).length,
          entry.table.usedSlots (disk.content entry.table.location)))
        = [("a", 0, 0), ("b", 2, 3)] ∧
      Inspected disk log loaded.catalog after := by
  intro commit pages disk settings log made loaded
  have hfits : commit.Fits := ⟨by decide, by decide⟩
  have hbytes : (disk.content ["log"]).toBytes
      = Log.bytesOf [commit] ++ commit.bytes.take 10 := by decide +kernel
  have hcontent := Log.openContent_frames (by simpa using hfits) hbytes
    (Log.ends_take hfits (by decide)) ["log"]
  have hlength : (Log.bytesOf [commit]).length = 25 := by
    simp [commit, LogFrame.length, logHeaderSize]
  rw [hlength] at hcontent
  have hlog : Log.openFile disk "log" = (.ok log, made) :=
    Log.openFile_eq_ok_iff.mpr ⟨disk, _, rfl, hcontent, rfl⟩
  have hload : (loadSchema "tables").perform (onLog made .unarmed log settings)
      = (.ok [.ofLocation ["b.dat"], .ofLocation ["a.dat"]], loaded) :=
    Prod.ext (ok_of_toOption (by decide +kernel)) rfl
  have htids : ∀ largest, log.recovered = some largest → largest.toNat < UInt64.size - 1 := by
    rintro largest ⟨⟩
    decide
  obtain ⟨summaries, after, hinspect, -, -, hcounts, hafter⟩ := inspect_counts rfl hlog htids hload
    (by decide +kernel) (by decide +kernel) (by decide +kernel)
  exact ⟨summaries, after, hinspect, hcounts, by decide +kernel, hafter⟩

end Store

end HeapStore
