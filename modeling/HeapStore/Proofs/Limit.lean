import HeapStore.Proofs.Eviction
import HeapStore.Proofs.Growth
import HeapStore.Proofs.Search

/-!
# Tables that come to the limit of page numbers

A table that has all pages but the one with the last number, and no room on any of them, is brimful
(`PlainStore.Brimful`).  The next insertion adds the last page; the file then has as many pages as
there are numbers, and these are counted as none.  So the insertion fails, because the page that it
added cannot be read, and no other page of the table can be read either (`brimful_insert`).

A transaction that has changed such a page cannot be undone, and there is no record of its end
(`brimful_abandon`).  Theorems about runs leave these tables out; `lastRoom` is a database that
comes to the limit with two rows.
-/

namespace HeapStore

/-! ## One transaction alone -/

/-- A sole holder is granted whatever it asks for, and stays the sole holder. -/
theorem PageLock.request?_single (tid : TransactionId) (held mode : LockMode) :
    ∃ granted, (PageLock.single tid held).request? tid mode = some (.single tid granted) := by
  cases held with
  | exclusive => exact ⟨.exclusive, by simp [PageLock.single, PageLock.request?]⟩
  | shared =>
      cases mode with
      | shared => exact ⟨.shared, by simp [PageLock.single, PageLock.request?]⟩
      | exclusive => exact ⟨.exclusive, by simp [PageLock.single, PageLock.request?]⟩

/-- Only this transaction has locks. -/
def LockTable.OnlyBy (locks : LockTable) (tid : TransactionId) : Prop :=
  ∀ entry ∈ locks.entries, ∃ mode, entry.2 = .single tid mode

namespace LockTable.OnlyBy

variable {locks : LockTable} {tid : TransactionId}

/-- It gets all locks. -/
theorem acquire (honly : locks.OnlyBy tid) (page : PageAddress) (mode : LockMode) :
    ∃ after, locks.acquire page tid mode = .ok after ∧ after.OnlyBy tid := by
  simp only [LockTable.acquire, acquire?]
  cases hlock : locks.lock? page with
  | none =>
      refine ⟨_, rfl, fun entry hentry => ?_⟩
      rcases List.mem_append.mp hentry with hentry | hentry
      · exact honly entry hentry
      · rw [List.mem_singleton.mp hentry]
        exact ⟨mode, rfl⟩
  | some lock =>
      obtain ⟨before, behind, hentries, -⟩ := List.lookup_eq_some_iff.mp hlock
      obtain ⟨held, hsingle⟩ := honly (page, lock) (by simp [hentries])
      obtain ⟨granted, hgranted⟩ := PageLock.request?_single tid held mode
      obtain rfl : lock = .single tid held := hsingle
      simp only [hgranted, Option.map_some]
      refine ⟨_, rfl, fun entry hentry => ?_⟩
      obtain ⟨former, hformer, rfl⟩ := List.mem_map.mp hentry
      split
      · exact ⟨granted, rfl⟩
      · exact honly former hformer

theorem release (honly : locks.OnlyBy tid) (page : PageAddress) :
    (locks.release page tid).OnlyBy tid := by
  intro entry hentry
  obtain ⟨former, hformer, hkept⟩ := List.mem_filterMap.mp hentry
  obtain ⟨mode, hsingle⟩ := honly former hformer
  split at hkept
  · have hnone : (PageLock.single tid mode).without? tid = none := by
      cases mode <;> simp [PageLock.single, PageLock.without?]
    rw [hsingle, hnone] at hkept
    exact absurd hkept (by simp)
  · rw [← Option.some.inj hkept]
    exact ⟨mode, hsingle⟩

end LockTable.OnlyBy

/-- No page of a table can be read from its file if none is counted. -/
theorem Catalog.read_of_uncounted {catalog : Catalog} {disk : Disk} {table : Table}
    (hregistered : catalog.table table.id = .ok table)
    (hnone : table.pageCount (disk.content table.location) = 0) (number : UInt32) :
    ∃ error, catalog.read disk ⟨table.id, number⟩ = .error error := by
  refine ⟨.pageOutOfRange ⟨table.id, number⟩ 0, ?_⟩
  simp only [Catalog.read, hregistered, Table.readPage, hnone]
  simp [UInt32.le_iff_toNat_le]

namespace PlainStore

variable {plain : PlainStore} {tid : TransactionId} {table : Table} {address : PageAddress}
  {page : Page}

/-- A transaction that is alone gets every page that can be read. -/
theorem getPage_of_alone (honly : plain.locks.OnlyBy tid) (address : PageAddress)
    (access : Access) :
    ∃ locks, locks.OnlyBy tid ∧
      plain.getPage tid address access = (plain.page address, plain.withLocks locks) := by
  obtain ⟨locks, hacquire, hafter⟩ := honly.acquire address access.lockMode
  refine ⟨locks, hafter, ?_⟩
  simp only [getPage, hacquire]
  rfl

/-- It searches all pages if all are full. -/
theorem seek_of_full (count number : Nat) (honly : plain.locks.OnlyBy tid)
    (hfull : ∀ earlier < count, ∃ page,
      plain.page ⟨table.id, .ofNat (number + earlier)⟩ = .ok page ∧ page.freeSlots = 0) :
    ∃ locks, locks.OnlyBy tid ∧
      seek tid table count number plain = (.ok none, plain.withLocks locks) := by
  induction count generalizing plain number with
  | zero => exact ⟨plain.locks, honly, rfl⟩
  | succ count ih =>
      have hlater : ∀ earlier < count, ∃ page,
          plain.page ⟨table.id, .ofNat (number + 1 + earlier)⟩ = .ok page ∧
            page.freeSlots = 0 := by
        intro earlier hearlier
        rw [Nat.add_assoc, Nat.add_comm 1]
        exact hfull (earlier + 1) (Nat.succ_lt_succ hearlier)
      obtain ⟨page, hpage, hnone⟩ := hfull 0 (Nat.succ_pos count)
      rw [Nat.add_zero] at hpage
      obtain ⟨locks, hlocks, hget⟩ :=
        getPage_of_alone honly ⟨table.id, .ofNat number⟩ .readWrite
      simp only [seek, hget, hpage, hnone, Nat.lt_irrefl, if_false]
      split
      · exact @ih (plain.withLocks locks) (number + 1) hlocks hlater
      · exact @ih (plain.withLocks (locks.release _ tid)) (number + 1) (hlocks.release _) hlater

/-- It has the first page if there is room on it. -/
theorem room_of_first (honly : plain.locks.OnlyBy tid)
    (hsome : 0 < (table.pageCount (plain.disk.content table.location)).toNat)
    (hpage : plain.page ⟨table.id, 0⟩ = .ok page) (hroom : 0 < page.freeSlots) :
    ∃ locks, locks.OnlyBy tid ∧ plain.room tid table = (.ok page, plain.withLocks locks) := by
  obtain ⟨count, hcount⟩ := Nat.exists_eq_add_of_lt hsome
  obtain ⟨locks, hlocks, hget⟩ := getPage_of_alone honly ⟨table.id, .ofNat 0⟩ .readWrite
  have hfirst : plain.page ⟨table.id, .ofNat 0⟩ = .ok page := hpage
  refine ⟨locks, hlocks, ?_⟩
  simp only [room, hcount, seek, hget, hfirst, hroom, if_true]

/-- It scans all pages if all can be read. -/
theorem scanPages_of_alone (count number : Nat) (honly : plain.locks.OnlyBy tid)
    (hpages : ∀ earlier < count, ∃ page,
      plain.page ⟨table.id, .ofNat (number + earlier)⟩ = .ok page) :
    ∃ (rows : List Row) (locks : LockTable), locks.OnlyBy tid ∧
      scanPages tid table count number plain = (rows.map .ok, plain.withLocks locks) ∧
      (0 < count → ∀ page, plain.page ⟨table.id, .ofNat number⟩ = .ok page →
        page.rows <+: rows) := by
  induction count generalizing plain number with
  | zero =>
      exact ⟨[], plain.locks, honly, rfl, fun hnever => absurd hnever (Nat.lt_irrefl 0)⟩
  | succ count ih =>
      have hlater : ∀ earlier < count, ∃ page,
          plain.page ⟨table.id, .ofNat (number + 1 + earlier)⟩ = .ok page := by
        intro earlier hearlier
        rw [Nat.add_assoc, Nat.add_comm 1]
        exact hpages (earlier + 1) (Nat.succ_lt_succ hearlier)
      obtain ⟨page, hpage⟩ := hpages 0 (Nat.succ_pos count)
      rw [Nat.add_zero] at hpage
      obtain ⟨locks, hlocks, hget⟩ :=
        getPage_of_alone honly ⟨table.id, .ofNat number⟩ .readOnly
      obtain ⟨rows, last, hlast, hrest, -⟩ :=
        @ih (plain.withLocks locks) (number + 1) hlocks hlater
      refine ⟨page.rows ++ rows, last, hlast, ?_, ?_⟩
      · simp only [scanPages, hget, hpage, hrest, List.map_append]
        rfl
      · intro _ first hfirst
        rw [hpage] at hfirst
        obtain rfl := Except.ok.inj hfirst
        exact List.prefix_append page.rows rows

/-! ## Brimful tables -/

/-- The table has all pages but the one with the last number, and no room on any of them.  The
transaction is alone, and writes of pages do not fail. -/
structure Brimful (plain : PlainStore) (tid : TransactionId) (table : Table) : Prop where
  registered : plain.catalog.table table.id = .ok table
  alone : plain.locks.OnlyBy tid
  unarmed : plain.armed.isEnabled heapWritePage = false
  count : (plain.disk.content table.location).size / table.pageSize + 1 = UInt32.size
  full : ∀ number, number + 1 < UInt32.size → ∃ page,
    plain.page ⟨table.id, .ofNat number⟩ = .ok page ∧ page.freeSlots = 0

/-- The page behind the last one was not changed. -/
theorem Sound.changed?_pageCount (hsound : plain.Sound)
    (hregistered : plain.catalog.table table.id = .ok table)
    (hsmall : table.Small (plain.disk.content table.location)) :
    plain.changed? ⟨table.id, table.pageCount (plain.disk.content table.location)⟩ = none := by
  apply changed?_of_missing hsound
  rw [Catalog.filed?_eq_of_table hregistered]
  exact Table.filed?_pageCount hsmall

/-- A page that was not changed cannot be had once no page of its table is counted. -/
theorem page_of_uncounted (hregistered : plain.catalog.table table.id = .ok table)
    (hnone : table.pageCount (plain.disk.content table.location) = 0) {number : UInt32}
    (hchanged : plain.changed? ⟨table.id, number⟩ = none) :
    ∃ error, plain.page ⟨table.id, number⟩ = .error error := by
  simp only [PlainStore.page, hchanged]
  split
  · exact ⟨_, rfl⟩
  · exact Catalog.read_of_uncounted hregistered hnone number

namespace Brimful

theorem small (hbrimful : plain.Brimful tid table) :
    table.Small (plain.disk.content table.location) := by
  have hcount := hbrimful.count
  rw [Table.Small]
  omega

theorem toNat_pageCount (hbrimful : plain.Brimful tid table) :
    (table.pageCount (plain.disk.content table.location)).toNat + 1 = UInt32.size := by
  rw [Table.pageCount_of_small hbrimful.small, hbrimful.count]

theorem pageCount_pos (hbrimful : plain.Brimful tid table) :
    0 < (table.pageCount (plain.disk.content table.location)).toNat := by
  have hcount := hbrimful.toNat_pageCount
  have hsize : UInt32.size = 4294967296 := rfl
  omega

/-- The next insertion fails, and then no page of the table is counted. -/
theorem insertRow (hbrimful : plain.Brimful tid table) (hsound : plain.Sound) {row : Row}
    (hcompatible : row.schema.compatible table.schema = true) :
    ∃ error content locks, table.pageCount content = 0 ∧
      plain.insertRow tid table.id row
        = (.error error, (plain.withContent table content).withLocks locks) := by
  have hsmall := hbrimful.small
  have hcount := hbrimful.toNat_pageCount
  have hlocation := hsound.catalog.location_of_table hbrimful.registered
  have hpos : 0 < table.pageSize := by
    rw [hsound.catalog.pageSize_of_table hbrimful.registered]
    exact hsound.catalog.pos
  generalize hlast : table.pageCount (plain.disk.content table.location) = number at hcount
  -- the search comes to its end with all pages full
  have hfull : ∀ earlier < number.toNat, ∃ page,
      plain.page ⟨table.id, .ofNat (0 + earlier)⟩ = .ok page ∧ page.freeSlots = 0 := by
    intro earlier hearlier
    rw [Nat.zero_add]
    exact hbrimful.full earlier (by omega)
  obtain ⟨searched, halone, hseek⟩ := seek_of_full number.toNat 0 hbrimful.alone hfull
  cases happend : table.appendPage plain.armed (plain.disk.content table.location) with
  | error error =>
      simp [Table.appendPage, Table.writeAt, Failpoints.check, hbrimful.unarmed, bind, Except.bind,
        pure, Except.pure] at happend
  | ok grown =>
      obtain ⟨address, content⟩ := grown
      obtain ⟨rfl, hwritten⟩ := Table.appended_of_appendPage happend
      have hnone : table.pageCount content = 0 := by
        rw [Table.pageCount, hwritten.count_appended hpos hsmall, hbrimful.count]
        rfl
      rw [hlast] at happend
      have hgrow : (plain.withLocks searched).grow table
          = (.ok ⟨table.id, number⟩, (plain.withContent table content).withLocks searched) := by
        have happend : table.appendPage (plain.withLocks searched).armed
            ((plain.withLocks searched).disk.content table.location)
              = .ok (⟨table.id, number⟩, content) := happend
        simp only [grow, happend]
        rfl
      -- the page that was added is one that cannot be had
      have hmissing : ∃ error, ((plain.withContent table content).withLocks searched).page
          ⟨table.id, number⟩ = .error error := by
        apply page_of_uncounted
        · exact hbrimful.registered
        · rw [withLocks, withContent, Disk.content_write_same _ hlocation]
          exact hnone
        · rw [← hlast]
          exact hsound.changed?_pageCount hbrimful.registered hsmall
      obtain ⟨error, hmissing⟩ := hmissing
      have honly : ((plain.withContent table content).withLocks searched).locks.OnlyBy tid := halone
      obtain ⟨locks, -, hget⟩ := getPage_of_alone honly ⟨table.id, number⟩ .readWrite
      refine ⟨error, content, locks, hnone, ?_⟩
      simp only [PlainStore.insertRow, hbrimful.registered, hcompatible, if_true, room, hlast,
        hseek, hgrow, hget, hmissing]
      rfl

/-- Other locks of the transaction do not matter. -/
theorem withLocks (hbrimful : plain.Brimful tid table) {locks : LockTable}
    (honly : locks.OnlyBy tid) : (plain.withLocks locks).Brimful tid table :=
  ⟨hbrimful.registered, honly, hbrimful.unarmed, hbrimful.count, hbrimful.full⟩

/-- A scan comes to the end of the table. -/
theorem scanPages (hbrimful : plain.Brimful tid table) :
    ∃ (rows : List Row) (locks : LockTable),
      PlainStore.scanPages tid table
          (table.pageCount (plain.disk.content table.location)).toNat 0 plain
        = (rows.map .ok, plain.withLocks locks) ∧
      (plain.withLocks locks).Brimful tid table ∧
      ∀ page, plain.page ⟨table.id, 0⟩ = .ok page → page.rows <+: rows := by
  have hcount := hbrimful.toNat_pageCount
  have hpages : ∀ earlier < (table.pageCount (plain.disk.content table.location)).toNat,
      ∃ page, plain.page ⟨table.id, .ofNat (0 + earlier)⟩ = .ok page := by
    intro earlier hearlier
    obtain ⟨page, hpage, -⟩ := hbrimful.full earlier (by omega)
    rw [Nat.zero_add]
    exact ⟨page, hpage⟩
  obtain ⟨rows, locks, honly, hscan, hfirst⟩ := scanPages_of_alone _ 0 hbrimful.alone hpages
  exact ⟨rows, locks, hscan, hbrimful.withLocks honly, hfirst hbrimful.pageCount_pos⟩

end Brimful

end PlainStore

namespace Store

open HeapStore.Action

variable {store : Store} {changed : List Page} {tid : TransactionId} {table : Table}

/-- An insertion into a brimful table fails, and then no page of the table is counted.  All else is
as it was, but for locks and the cache. -/
theorem brimful_insert (hcoherent : Coherent store changed)
    (hsmall : store.catalog.Small store.disk) (hbrimful : (store.plain changed).Brimful tid table)
    {row : Row} (hvalid : row.Valid) (hcompatible : row.schema.compatible table.schema = true) :
    ∃ error after still, store.turn (.step (.insert tid table.id row)) = (.error error, after) ∧
      Coherent after still ∧ after.pageCount table = 0 ∧ ∃ content locks,
        after.plain still
          = ((store.plain changed).withContent table content).withLocks locks := by
  obtain ⟨error, content, locks, hnone, hinsert⟩ :=
    hbrimful.insertRow hcoherent.sound hcompatible
  have hfixed : (Turn.step (.insert tid table.id row)).operation.Fixed := hvalid
  obtain ⟨hanswer, still, hafter, hplain⟩ := turn_agree hcoherent hsmall hfixed
  have hturn : (store.plain changed).turn (.step (.insert tid table.id row))
      = (.error error, ((store.plain changed).withContent table content).withLocks locks) := by
    simp only [PlainStore.turn, PlainStore.step, hinsert]
    rfl
  rw [hturn] at hanswer hplain
  have hlocation := hcoherent.sound.catalog.location_of_table hbrimful.registered
  have hdisk : (store.turn (.step (.insert tid table.id row))).2.disk
      = store.disk.write table.location content :=
    (congrArg PlainStore.disk hplain).symm
  refine ⟨error, _, still, Prod.ext (hanswer rfl) rfl, hafter, ?_, content, locks, hplain.symm⟩
  rw [pageCount, tableContent, hdisk, Disk.content_write_same _ hlocation, hnone]

/-- A transaction whose first changed page cannot be read again leaves no trace when it is given
up. -/
theorem abandon_of_unreadable (hsound : store.Sound) {address : PageAddress}
    {rest : List PageAddress} (hdirty : store.pool.dirtiedBy tid = address :: rest)
    {error : StoreError} (hmissing : store.catalog.read store.disk address = .error error) :
    (store.turn (.step (.abandon tid))).2 = store := by
  obtain ⟨frame, owner, hfind, -⟩ :=
    dirty_of_mem_dirtiedBy hsound (hdirty ▸ List.mem_cons_self)
  have hrestore : (restorePage address).perform store = (.error error, store) := by
    simp only [perform_restorePage, hfind, hmissing]
  show (Action.perform (abandon tid *> pure Reply.done) store).2 = store
  rw [Action.perform_seqRight_pure, perform_abandon]
  simp only [perform_finish, perform_complete, hdirty, perform_forM_cons, Bool.false_eq_true,
    if_false, hrestore]

/-- A transaction that has changed a page of a brimful table, inserts once more and is then given
up: no record says so. -/
theorem brimful_abandon (hcoherent : Coherent store changed)
    (hsmall : store.catalog.Small store.disk) (hbrimful : (store.plain changed).Brimful tid table)
    {number : UInt32} {rest : List PageAddress}
    (hdirty : (store.plain changed).dirtiedBy tid = ⟨table.id, number⟩ :: rest) {row : Row}
    (hvalid : row.Valid) (hcompatible : row.schema.compatible table.schema = true) :
    (store.follow [.step (.insert tid table.id row), .step (.abandon tid)]).records
      = store.records := by
  obtain ⟨error, after, still, hinsert, hafter, hnone, content, locks, hplain⟩ :=
    brimful_insert hcoherent hsmall hbrimful hvalid hcompatible
  have hregistered := hbrimful.registered
  have hother : table.location ≠ store.log.location :=
    hcoherent.sound.apart.of_table hregistered
  have hcatalog : after.catalog = store.catalog := congrArg PlainStore.catalog hplain
  have hdisk : after.disk = store.disk.write table.location content :=
    congrArg PlainStore.disk hplain
  have hlog : after.log = store.log := congrArg PlainStore.log hplain
  have hchanged : after.pool.dirtiedBy tid = ⟨table.id, number⟩ :: rest := by
    rw [← hafter.dirtiedBy_eq, hplain]
    exact hdirty
  obtain ⟨missing, hmissing⟩ : ∃ error, after.catalog.read after.disk ⟨table.id, number⟩
      = .error error := by
    rw [hcatalog]
    exact Catalog.read_of_uncounted hregistered hnone number
  show ((store.turn (.step (.insert tid table.id row))).2.turn (.step (.abandon tid))).2.records = _
  rw [hinsert, abandon_of_unreadable ⟨hafter.pool, hafter.sound.catalog⟩ hchanged hmissing, records,
    records, logContent, logContent, hlog, hdisk, Disk.content_write_other _ hother.symm]

/-! ## A file that is brimful but for one row -/

/-- So many pages of five bytes with a row on each. -/
def fullPages (count : Nat) : Bytes :=
  (List.replicate count [1, 0, 0, 0, 42]).flatten

/-- A page without rows, and behind it so many with a row on each. -/
def lastRoomFile (count : Nat) : Content :=
  ⟨[.hole 5, .bytes (fullPages count)]⟩

theorem slice_fullPages {count number : Nat} (hnumber : number < count) :
    Bytes.slice (number * 5) 5 (fullPages count) = [1, 0, 0, 0, 42] := by
  obtain ⟨rest, rfl⟩ := Nat.exists_eq_add_of_lt hnumber
  have hlength : ((List.replicate number [1, 0, 0, 0, 42]).flatten : Bytes).length
      = number * 5 := by
    simp
  rw [fullPages, Nat.add_assoc, List.replicate_add, List.flatten_append, Bytes.slice,
    List.drop_left' hlength, List.replicate_succ]
  rfl

section

variable {count number : Nat}

theorem slice_lastRoomFile (hnumber : number < count) :
    (lastRoomFile count).slice ((number + 1) * 5) 5 = [1, 0, 0, 0, 42] := by
  have hbytes : (lastRoomFile count).toBytes = Bytes.zeros 5 ++ fullPages count := by
    simp [lastRoomFile, Run.toBytes]
  rw [Content.slice_eq, hbytes, Bytes.slice, Nat.succ_mul, Nat.add_comm, ← List.drop_drop,
    List.drop_left' (Bytes.length_zeros 5)]
  exact slice_fullPages hnumber

theorem pages_lastRoomFile (count : Nat) :
    (lastRoomFile count).size / outgrownTable.pageSize = count + 1 := by
  have hsize : (lastRoomFile count).size = (count + 1) * 5 := by
    have hlength : (fullPages count).length = count * 5 := by simp [fullPages]
    simp only [lastRoomFile, Content.size, List.foldr_cons, List.foldr_nil, Run.size, hlength]
    omega
  rw [hsize]
  exact Nat.mul_div_cancel _ (by decide)

theorem readPage_lastRoomFile (hcount : count + 1 < UInt32.size) (hnumber : number ≤ count) :
    outgrownTable.readPage (lastRoomFile count) ⟨sampleTable, .ofNat number⟩
      = Page.parse ⟨sampleTable, .ofNat number⟩ sampleSchema
        ((lastRoomFile count).slice (number * 5) 5) := by
  have hnat : (UInt32.ofNat number).toNat = number := UInt32.toNat_ofNat_of_lt' (by omega)
  have hin : ¬ outgrownTable.pageCount (lastRoomFile count) ≤ UInt32.ofNat number := by
    rw [UInt32.le_iff_toNat_le, Table.pageCount, pages_lastRoomFile,
      UInt32.toNat_ofNat_of_lt' hcount, hnat]
    omega
  have hoffset : outgrownTable.offset (.ofNat number) = number * 5 := by
    rw [Table.offset, hnat]
    rfl
  rw [Table.readPage, if_neg (by simp [outgrownTable]), if_neg hin, hoffset]
  rfl

end

/-- The first page of the file. -/
def blankPage : Page :=
  (Page.empty ⟨sampleTable, 0⟩ sampleSchema 5).toOption.getD default

/-- This page after a transaction put a row on it. -/
def filledPage : Page :=
  (((blankPage.insert (sampleRow 7)).toOption.getD default).2.withOwner (some 1)).normal

theorem address_filledPage : filledPage.address = ⟨sampleTable, 0⟩ := by
  decide +kernel

theorem changed?_filledPage {plain : PlainStore} (hchanged : plain.changed = [filledPage]) :
    plain.changed? ⟨sampleTable, 0⟩ = some filledPage := by
  simp [PlainStore.changed?, hchanged, address_filledPage]

/-- A plain store with such a file as its table, and one number left for another page; nothing was
changed. -/
structure LastRoom (plain : PlainStore) (count : Nat) : Prop where
  numbers : count + 2 = UInt32.size
  registered : plain.catalog.table sampleTable = .ok outgrownTable
  content : plain.disk.content outgrownTable.location = lastRoomFile count
  unarmed : plain.armed.isEnabled heapWritePage = false
  alone : plain.locks.OnlyBy 1
  changed : plain.changed = []
  capacity : 1 < plain.capacity

namespace LastRoom

variable {plain : PlainStore} {store : Store} {count number : Nat}

theorem read (hlastRoom : LastRoom plain count) (hnumber : number ≤ count) :
    plain.catalog.read plain.disk ⟨sampleTable, .ofNat number⟩
      = Page.parse ⟨sampleTable, .ofNat number⟩ sampleSchema
        ((lastRoomFile count).slice (number * 5) 5) := by
  have hnumbers := hlastRoom.numbers
  rw [Catalog.read, hlastRoom.registered]
  simp only [hlastRoom.content]
  exact readPage_lastRoomFile (by omega) hnumber

theorem read_first (hlastRoom : LastRoom plain count) :
    plain.catalog.read plain.disk ⟨sampleTable, 0⟩ = .ok blankPage := by
  have hzeros : (lastRoomFile count).slice 0 5 = Bytes.zeros 5 := rfl
  have hfirst := hlastRoom.read (Nat.zero_le count)
  rw [Nat.zero_mul, hzeros] at hfirst
  exact hfirst

theorem read_full (hlastRoom : LastRoom plain count) (hnumber : number < count) :
    ∃ page, plain.catalog.read plain.disk ⟨sampleTable, .ofNat (number + 1)⟩ = .ok page ∧
      page.freeSlots = 0 := by
  rw [hlastRoom.read hnumber, slice_lastRoomFile hnumber]
  exact ⟨_, rfl, rfl⟩

/-- Once there is a row on the first page the table is brimful. -/
theorem brimful (hlastRoom : LastRoom plain count) {locks : LockTable} (honly : locks.OnlyBy 1) :
    PlainStore.Brimful { plain with locks := locks, changed := [filledPage] } 1 outgrownTable where
  registered := hlastRoom.registered
  alone := honly
  unarmed := hlastRoom.unarmed
  count := by
    rw [hlastRoom.content, pages_lastRoomFile]
    exact hlastRoom.numbers
  full number hnumber := by
    have hnumbers := hlastRoom.numbers
    cases number with
    | zero =>
        exact ⟨filledPage, PlainStore.page_of_changed (changed?_filledPage rfl), by decide +kernel⟩
    | succ number =>
        have hother : (0 : UInt32) ≠ .ofNat (number + 1) := by
          intro heq
          have hnat := congrArg UInt32.toNat heq
          rw [UInt32.toNat_ofNat_of_lt' (by omega)] at hnat
          exact absurd hnat (by simp)
        have hunchanged : PlainStore.changed?
            { plain with locks := locks, changed := [filledPage] }
              ⟨sampleTable, .ofNat (number + 1)⟩ = none := by
          apply List.find?_eq_none.mpr
          intro page hpage
          rw [List.mem_singleton.mp hpage, address_filledPage]
          simpa using hother
        obtain ⟨page, hread, hnone⟩ := hlastRoom.read_full (by omega : number < count)
        exact ⟨page, (PlainStore.page_of_room hunchanged hlastRoom.capacity).trans hread, hnone⟩

/-- The first row is put on the first page. -/
theorem insertRow (hlastRoom : LastRoom plain count) :
    ∃ locks, locks.OnlyBy 1 ∧ plain.insertRow 1 sampleTable (sampleRow 7)
      = (.ok (sampleRowAt 7 0 0), { plain with locks := locks, changed := [filledPage] }) := by
  have hnumbers := hlastRoom.numbers
  have hsome :
      0 < (outgrownTable.pageCount (plain.disk.content outgrownTable.location)).toNat := by
    rw [hlastRoom.content, Table.toNat_pageCount, pages_lastRoomFile, Nat.mod_eq_of_lt (by omega)]
    omega
  have hunchanged : plain.changed? ⟨sampleTable, 0⟩ = none := by
    rw [PlainStore.changed?, hlastRoom.changed]
    rfl
  have hcapacity : plain.changed.length < plain.capacity := by
    rw [hlastRoom.changed]
    exact Nat.lt_of_succ_lt hlastRoom.capacity
  have hpage : plain.page ⟨sampleTable, 0⟩ = .ok blankPage :=
    (PlainStore.page_of_room hunchanged hcapacity).trans hlastRoom.read_first
  obtain ⟨locks, honly, hroom⟩ :=
    PlainStore.room_of_first hlastRoom.alone hsome hpage (by decide +kernel)
  have hcompatible : (sampleRow 7).schema.compatible outgrownTable.schema = true := by
    decide +kernel
  have hinsert : ∃ fuller, blankPage.insert (sampleRow 7) = .ok (sampleRowAt 7 0 0, fuller) ∧
      (fuller.withOwner (some 1)).normal = filledPage :=
    ⟨((blankPage.insert (sampleRow 7)).toOption.getD default).2, by decide +kernel, rfl⟩
  obtain ⟨fuller, hinsert, hfuller⟩ := hinsert
  refine ⟨locks, honly, ?_⟩
  simp only [PlainStore.insertRow, hlastRoom.registered, hcompatible, if_true, hroom, hinsert,
    hfuller, PlainStore.put, PlainStore.drop, PlainStore.withLocks, hlastRoom.changed,
    List.filter_nil]

end LastRoom

/-- The first transaction begins and fills the table. -/
def fillingTurns : List Turn :=
  [.step .begin, .step (.insert 1 sampleTable (sampleRow 7))]

/-- After these turns the table is brimful. -/
theorem LastRoom.follow {store : Store} {count : Nat} (hcoherent : Coherent store [])
    (hsmall : store.catalog.Small store.disk) (hlastRoom : LastRoom (store.plain []) count) :
    store.Admits fillingTurns ∧ ∃ locks still, let filled := store.follow fillingTurns
      Coherent filled still ∧ (filled.plain still).Brimful 1 outgrownTable ∧
        (filled.plain still).page ⟨sampleTable, 0⟩ = .ok filledPage ∧
        filled.plain still
          = { store.plain [] with
              locks := locks
              nextTransaction := store.nextTransaction + 1
              changed := [filledPage] } := by
  have hfixed : (Turn.step .begin).operation.Fixed := trivial
  obtain ⟨-, begun, hbegun, hbegin⟩ := turn_agree hcoherent hsmall hfixed
  have hbegin : (store.turn (.step .begin)).2.plain begun
      = { store.plain [] with nextTransaction := store.nextTransaction + 1 } := hbegin.symm
  have hmiddle : (store.turn (.step .begin)).2.catalog.Small (store.turn (.step .begin)).2.disk :=
    hsmall
  have hlastRoom : LastRoom ((store.turn (.step .begin)).2.plain begun) count := by
    rw [hbegin]
    exact ⟨hlastRoom.numbers, hlastRoom.registered, hlastRoom.content, hlastRoom.unarmed,
      hlastRoom.alone, hlastRoom.changed, hlastRoom.capacity⟩
  obtain ⟨locks, honly, hinsert⟩ := hlastRoom.insertRow
  have hvalid : (Turn.step (.insert 1 sampleTable (sampleRow 7))).operation.Fixed :=
    valid_sampleRow 7
  obtain ⟨-, still, hfilled, hplain⟩ := turn_agree hbegun hmiddle hvalid
  have hturn : (store.follow fillingTurns).plain still
      = { (store.turn (.step .begin)).2.plain begun with
          locks := locks, changed := [filledPage] } := by
    refine hplain.symm.trans ?_
    simp only [PlainStore.turn, PlainStore.step, hinsert]
    rfl
  have hlast : (store.follow fillingTurns).catalog.Small (store.follow fillingTurns).disk :=
    small_of_plain hturn hmiddle
  refine ⟨⟨hsmall, trivial, hmiddle, trivial, hlast⟩, locks, still, hfilled, ?_, ?_, ?_⟩
  · rw [hturn]
    exact hlastRoom.brimful honly
  · rw [hturn]
    exact PlainStore.page_of_changed (changed?_filledPage rfl)
  · rw [hturn, hbegin]

/-- A transaction that inserts once more and is then given up is not on record. -/
theorem LastRoom.dropped {store : Store} {count : Nat} (hcoherent : Coherent store [])
    (hsmall : store.catalog.Small store.disk) (hlastRoom : LastRoom (store.plain []) count) :
    (store.follow (fillingTurns ++
      [.step (.insert 1 sampleTable (sampleRow 8)), .step (.abandon 1)])).records
        = store.records := by
  obtain ⟨hadmits, locks, still, hfilled, hbrimful, -, hplain⟩ :=
    hlastRoom.follow hcoherent hsmall
  have hdirty : ((store.follow fillingTurns).plain still).dirtiedBy 1 = [⟨sampleTable, 0⟩] := by
    have hchanged : inOrder PageAddress.precedes
        (([filledPage].filter (·.owner = some 1)).map (·.address)) = [⟨sampleTable, 0⟩] := by
      decide +kernel
    rw [hplain]
    exact hchanged
  have hlog : (store.follow fillingTurns).log = store.log := congrArg PlainStore.log hplain
  have hdisk : (store.follow fillingTurns).disk = store.disk := congrArg PlainStore.disk hplain
  have hrecords := brimful_abandon hfilled hadmits.last hbrimful hdirty (valid_sampleRow 8)
    (by decide +kernel)
  rw [follow_append]
  refine hrecords.trans ?_
  rw [records, records, logContent, logContent, hlog, hdisk]

/-- A database with a table that has place for one more row, and a number for one more page. -/
@[irreducible] def lastRoom : Store :=
  ((openedAt ⟨[(["a"], .file (lastRoomFile (UInt32.size - 2)))], []⟩ "log"
    { Settings.standard with pageSize := 5 }).step (.openTable "a" "a" sampleSchema none 5)).2

theorem opened_lastRoom : Opened lastRoom := by
  unfold lastRoom
  exact .registered (opened_openedAt (by decide +kernel)) rfl

theorem content_lastRoom :
    lastRoom.tableContent outgrownTable = lastRoomFile (UInt32.size - 2) := by
  with_unfolding_all rfl

theorem small_lastRoom : lastRoom.catalog.Small lastRoom.disk := by
  have hentries : lastRoom.catalog.entries.map (·.table) = [outgrownTable] := by decide +kernel
  intro entry hentry
  have htable : entry.table ∈ [outgrownTable] := hentries ▸ List.mem_map_of_mem hentry
  rw [List.mem_singleton.mp htable, Table.Small, ← tableContent, content_lastRoom,
    pages_lastRoomFile]
  decide +kernel

theorem plain_lastRoom : LastRoom (lastRoom.plain []) (UInt32.size - 2) where
  numbers := by decide +kernel
  registered := by decide +kernel
  content := content_lastRoom
  unarmed := by decide +kernel
  alone := by
    have hlocks : lastRoom.pool.locks.entries = [] := by decide +kernel
    exact fun entry hentry => absurd (hlocks ▸ hentry) List.not_mem_nil
  changed := rfl
  capacity := by decide +kernel

end Store

end HeapStore
