import HeapStore.Inspect
import HeapStore.Proofs.Agreement
import HeapStore.Proofs.Locks
import HeapStore.Proofs.PageArray

/-!
# Transactions that only read

While a transaction browses, no page is changed and nobody but the transaction holds a lock, so
whatever page it asks for is granted and read from its file, in a cache of any size.
`Store.Browsing` says what such a store still has in common with the one in which the transaction
began: all but the clean pages in the cache and the shared locks.  Each summary of a table keeps it
(`Browsing.summarize`), and so do the summaries of all tables (`Browsing.summaries`).  The commit
then flushes nothing and writes its one record (`Browsing.commit`).

The proofs run on the plain store, which has no cache; `HeapStore.Proofs.Agreement` carries them
over.
-/

namespace HeapStore

/-! ## Locks of one reader -/

namespace LockTable

variable {table : LockTable} {tid : TransactionId}

/-- Every lock is a shared one that only `tid` holds. -/
def SharedBy (table : LockTable) (tid : TransactionId) : Prop :=
  ∀ page lock, table.lock? page = some lock → lock = .shared [tid]

theorem sharedBy_empty (tid : TransactionId) : empty.SharedBy tid := by
  intro page lock hlock
  simp [lock?, empty] at hlock

/-- The reader is granted one more shared lock, or again one that it has. -/
theorem SharedBy.acquire (hshared : table.SharedBy tid) (page : PageAddress) :
    ∃ after, table.acquire page tid .shared = .ok after ∧ after.SharedBy tid := by
  have hgranted : table.granted? page tid .shared = some (.shared [tid]) := by
    unfold granted?
    cases hlock : table.lock? page with
    | none => rfl
    | some lock =>
        rw [hshared page lock hlock]
        simp [PageLock.request?]
  have hsome : (table.acquire? page tid .shared).isSome = true := by
    rw [isSome_acquire?, hgranted]
    rfl
  obtain ⟨after, hacquire⟩ := Option.isSome_iff_exists.mp hsome
  refine ⟨after, by rw [LockTable.acquire, hacquire], ?_⟩
  obtain ⟨granted, hsame, hafter⟩ := lock?_of_acquire? hacquire
  intro other lock hlock
  rw [hafter] at hlock
  split at hlock
  · rw [← Option.some.inj hlock]
    exact Option.some.inj (hsame.symm.trans hgranted)
  · exact hshared other lock hlock

end LockTable

/-! ## Pages that are read -/

/-- Number of the slots in use on a page with these bytes. -/
def Page.usedIn (schema : Schema) (data : Bytes) : Nat :=
  (List.range (Geometry.slotCount data.length schema.rowSize)).countP (Bitmap.isSet data)

/-- The rows of a page that was read are in the slots whose bits are set. -/
theorem Page.length_rows_of_parse {address : PageAddress} {schema : Schema} {data : Bytes}
    {page : Page} (hread : parse address schema data = .ok page) :
    page.rows.length = usedIn schema data := by
  have hsound := (readFrom_of_parse hread).sound
  have hcount : Geometry.slotCount data.length schema.rowSize = page.slots.length :=
    (parts_of_parse hread).1
  have hheader := header_of_parse hread
  have hrows : page.usedSlots = ((List.range page.slots.length).map page.row?).countP
      Option.isSome := by
    rw [map_row?_range]
    rfl
  rw [length_rows, hrows, List.countP_map, usedIn, hcount]
  apply List.countP_congr
  intro slot hslot
  have hinside := List.mem_range.mp hslot
  have hbit : Bitmap.isSet page.header slot = Bitmap.isSet data slot := by
    rw [hheader]
    apply Bitmap.isSet_take
    unfold headerSize slotCount Geometry.headerSize
    omega
  rw [← hbit, isSet_header hsound hinside]
  rfl

namespace Table

variable {table : Table} {content : Content}

/-- Every whole page of the file can be read. -/
def Legible (table : Table) (content : Content) : Prop :=
  ∀ number < content.size / table.pageSize,
    (Page.parse ⟨table.id, UInt32.ofNat number⟩ table.schema
      (content.slice (number * table.pageSize) table.pageSize)).isOk = true

instance (table : Table) (content : Content) : Decidable (table.Legible content) :=
  inferInstanceAs (Decidable (∀ number < content.size / table.pageSize, _))

/-- Number of the rows in the file, counted by the bits of its whole pages. -/
def usedSlots (table : Table) (content : Content) : Nat :=
  ((table.wholePages content).map (Page.usedIn table.schema)).sum

theorem usedSlots_eq (table : Table) (content : Content) :
    table.usedSlots content = ((List.range' 0 (content.size / table.pageSize)).map fun number =>
      Page.usedIn table.schema (content.slice (number * table.pageSize) table.pageSize)).sum := by
  rw [usedSlots]
  congr 1
  apply List.ext_getElem?
  intro number
  rw [List.getElem?_map, List.getElem?_map]
  by_cases hnumber : number < content.size / table.pageSize
  · rw [getElem?_wholePages hnumber]
    simp [hnumber]
  · rw [List.getElem?_eq_none (by simpa using hnumber),
      List.getElem?_eq_none (by simpa using hnumber)]
    rfl

/-- A page of a legible file is read, and its rows are counted by its bits. -/
theorem Legible.read (hlegible : table.Legible content) (hsmall : table.Small content)
    {number : Nat} (hnumber : number < content.size / table.pageSize) :
    ∃ page, table.readPage content ⟨table.id, UInt32.ofNat number⟩ = .ok page ∧
      page.rows.length = Page.usedIn table.schema
        (content.slice (number * table.pageSize) table.pageSize) := by
  have htoNat : (UInt32.ofNat number).toNat = number :=
    UInt32.toNat_ofNat_of_lt' (Nat.lt_trans hnumber hsmall)
  have hinside : UInt32.ofNat number < table.pageCount content := by
    rw [UInt32.lt_iff_toNat_lt, htoNat, pageCount_of_small hsmall]
    exact hnumber
  have hread := hlegible number hnumber
  cases hparse : Page.parse ⟨table.id, UInt32.ofNat number⟩ table.schema
      (content.slice (number * table.pageSize) table.pageSize) with
  | error error =>
      rw [hparse] at hread
      exact absurd hread (by simp [Except.isOk, Except.toBool])
  | ok page =>
      refine ⟨page, ?_, Page.length_rows_of_parse hparse⟩
      rw [readPage_of_lt rfl hinside, offset, htoNat, hparse]

end Table

/-! ## The plain store -/

namespace PlainStore

variable {plain : PlainStore} {tid : TransactionId} (hnone : plain.changed = [])
include hnone

section

variable (hroom : 0 < plain.capacity) (hlocks : plain.locks.SharedBy tid)
include hroom hlocks

/-- A reader gets every page that its file has. -/
theorem getPage_shared {address : PageAddress} {page : Page}
    (hread : plain.catalog.read plain.disk address = .ok page) :
    ∃ locks, locks.SharedBy tid ∧
      plain.getPage tid address .readOnly = (.ok page, plain.withLocks locks) := by
  obtain ⟨locks, hacquire, hshared⟩ := hlocks.acquire address
  refine ⟨locks, hshared, ?_⟩
  have hpage : (plain.withLocks locks).page address = .ok page := by
    rw [page_of_room (by simp [changed?, withLocks, hnone]) (by simpa [withLocks, hnone])]
    exact hread
  have hgranted : plain.locks.acquire address tid Access.readOnly.lockMode = .ok locks := hacquire
  simp only [getPage, hgranted, hpage]

/-- A scan over pages that their file has gives their rows. -/
theorem scanPages_shared {table : Table} {used : Nat → Nat} {count number : Nat}
    (hpages : ∀ index, number ≤ index → index < number + count →
      ∃ page, plain.catalog.read plain.disk ⟨table.id, UInt32.ofNat index⟩ = .ok page ∧
        page.rows.length = used index) :
    ∃ (rows : List Row) (locks : LockTable), locks.SharedBy tid ∧
      scanPages tid table count number plain = (rows.map .ok, plain.withLocks locks) ∧
      rows.length = ((List.range' number count).map used).sum := by
  induction count generalizing number plain with
  | zero => exact ⟨[], plain.locks, hlocks, rfl, rfl⟩
  | succ count ih =>
      obtain ⟨page, hread, hused⟩ := hpages number (Nat.le_refl _) (by omega)
      obtain ⟨mid, hmid, hget⟩ := getPage_shared hnone hroom hlocks hread
      -- The pages behind the first one are read under one lock more.
      obtain ⟨rows, locks, hshared, hscan, hlength⟩ := @ih (plain.withLocks mid) hnone hroom hmid
        (number + 1) fun index hstart hend => hpages index (by omega) (by omega)
      refine ⟨page.rows ++ rows, locks, hshared, ?_, ?_⟩
      · simp only [scanPages, hget, hscan, List.map_append]
        rfl
      · rw [List.length_append, hused, hlength, List.range'_succ, List.map_cons, List.sum_cons]

end

/-- Where no page was changed, a transaction ends with its record and nothing else. -/
theorem endWith_unchanged (commit : Bool) :
    plain.endWith tid commit =
      (.ok (), (plain.withLocks (plain.locks.releaseAll tid)).logged tid
        (Store.outcome commit)) := by
  have hdirty : plain.dirtiedBy tid = [] := by
    rw [dirtiedBy, hnone]
    rfl
  simp only [endWith, finish, complete, hdirty, each]

end PlainStore

/-- Where the plain store succeeds, so does the store. -/
theorem Agree.of_ok {α β : Type} {related : α → Store → β → Prop}
    {real : Except StoreError α × Store} {b : β} {plain : PlainStore}
    (hagree : Agree related real (.ok b, plain)) :
    ∃ a after changed, real = (.ok a, after) ∧ Coherent after changed ∧ related a after b ∧
      plain = after.plain changed := by
  cases hagree with
  | ok hcoherent hrelated => exact ⟨_, _, _, rfl, hcoherent, hrelated, rfl⟩

namespace Store

open HeapStore.Action

variable {start store : Store} {tid : TransactionId}

/-! ## The store -/

theorem perform_scanAll (tid : TransactionId) (table : Table) (store : Store) :
    (scanAll tid table).perform store =
      ((scanPages tid table (store.pageCount table).toNat 0 store).1.mapM id,
        (scanPages tid table (store.pageCount table).toNat 0 store).2) := by
  obtain ⟨hrows, hafter⟩ := rest_eq (Cursor.start table tid) store rfl
  simp only [scanAll, perform_bind, perform_get, perform_set, perform_ofExcept, hrows, hafter]
  rfl

theorem perform_summarize (tid : TransactionId) (id : TableId) (store : Store) :
    (summarize tid id).perform store =
      match store.catalog.entry id with
      | .error error => (.error error, store)
      | .ok entry =>
        match (scanAll tid entry.table).perform store with
        | (.error error, after) => (.error error, after)
        | (.ok rows, after) =>
          (.ok ⟨entry.name, id, after.pageCount entry.table, rows.length⟩, after) := by
  simp only [summarize, perform_bind, perform_get, perform_ofExcept]
  cases store.catalog.entry id with
  | error error => rfl
  | ok entry =>
      simp only
      rcases (scanAll tid entry.table).perform store with ⟨result, after⟩
      cases result with
      | error error => rfl
      | ok rows => rfl

/-- A scan whose entries are those of rows has met no error. -/
theorem mapM_of_entries {found : List (Except StoreError Row)} {rows : List Row}
    (hfound : entries found = entries (rows.map .ok)) :
    ∃ seen, found.mapM id = .ok seen ∧ seen.length = rows.length := by
  obtain ⟨seen, rfl, hseen⟩ := eq_map_of_entries hfound
  refine ⟨seen, ?_, by simpa using congrArg List.length hseen⟩
  rw [List.mapM_map]
  exact List.mapM_pure.trans (congrArg Except.ok (List.map_id seen))

/-- The store is the one at the start but for clean pages in its cache and shared locks of `tid`. -/
structure Browsing (start : Store) (tid : TransactionId) (store : Store) : Prop where
  coherent : Coherent store []
  locks : store.pool.locks.SharedBy tid
  plain : store.plain [] = (start.plain []).withLocks store.pool.locks

theorem Browsing.catalog (hbrowsing : Browsing start tid store) : store.catalog = start.catalog :=
  congrArg PlainStore.catalog hbrowsing.plain

theorem Browsing.disk (hbrowsing : Browsing start tid store) : store.disk = start.disk :=
  congrArg PlainStore.disk hbrowsing.plain

theorem Browsing.capacity (hbrowsing : Browsing start tid store) :
    store.pool.settings.capacity = start.pool.settings.capacity :=
  congrArg PlainStore.capacity hbrowsing.plain

/-- What a summary says of a table: its name and identity, how many whole pages its file has, and in
how many slots on them there are rows. -/
structure Summarizes (disk : Disk) (entry : CatalogEntry) (summary : TableSummary) : Prop where
  name : summary.name = entry.name
  table : summary.table = entry.table.id
  pages : summary.pages.toNat =
    (entry.table.wholePages (disk.content entry.table.location)).length
  rows : summary.rows = entry.table.usedSlots (disk.content entry.table.location)

section

variable (hbrowsing : Browsing start tid store) (hroom : 0 < start.pool.settings.capacity)
  (hsmall : start.catalog.Small start.disk)
include hbrowsing hroom hsmall

/-- A table is scanned to its end, and the scan finds as many rows as bits are set. -/
theorem Browsing.scanAll {table : Table} (htable : start.catalog.table table.id = .ok table)
    (hlegible : table.Legible (start.disk.content table.location)) :
    ∃ rows after, (Store.scanAll tid table).perform store = (.ok rows, after) ∧
      Browsing start tid after ∧
      rows.length = table.usedSlots (start.disk.content table.location) := by
  have hsmallTable := hsmall.of_table htable
  have hcount : (store.pageCount table).toNat =
      (start.disk.content table.location).size / table.pageSize := by
    rw [Store.pageCount, tableContent, hbrowsing.disk, Table.pageCount_of_small hsmallTable]
  have hpages : ∀ index, 0 ≤ index → index < 0 + (store.pageCount table).toNat →
      ∃ page, (store.plain []).catalog.read (store.plain []).disk
          ⟨table.id, UInt32.ofNat index⟩ = .ok page ∧
        page.rows.length = Page.usedIn table.schema ((start.disk.content table.location).slice
          (index * table.pageSize) table.pageSize) := by
    intro index _ hindex
    have hinside : index < (start.disk.content table.location).size / table.pageSize := by omega
    obtain ⟨page, hread, hused⟩ := hlegible.read hsmallTable hinside
    refine ⟨page, ?_, hused⟩
    simp only [plain_catalog, plain_disk, hbrowsing.catalog, hbrowsing.disk, Catalog.read, htable,
      hread]
  obtain ⟨rows, locks, hshared, hscan, hlength⟩ := PlainStore.scanPages_shared rfl
    (show 0 < (store.plain []).capacity by rw [hbrowsing.plain]; exact hroom)
    hbrowsing.locks hpages
  obtain ⟨hentries, still, hafter, hplain⟩ := scanPages_agree hbrowsing.coherent
    (small_of_plain hbrowsing.plain hsmall) tid table (store.pageCount table).toNat 0
  rw [hscan] at hentries hplain
  obtain rfl : still = [] := (congrArg PlainStore.changed hplain).symm
  obtain ⟨seen, hseen, hseenLength⟩ := mapM_of_entries hentries
  have hlocks : locks = (scanPages tid table (store.pageCount table).toNat 0 store).2.pool.locks :=
    congrArg PlainStore.locks hplain
  refine ⟨seen, _, by rw [perform_scanAll, hseen], ⟨hafter, hlocks ▸ hshared, ?_⟩, ?_⟩
  · rw [← hplain, ← hlocks, hbrowsing.plain]
    rfl
  · rw [hseenLength, hlength, hcount, Table.usedSlots_eq]

/-- A registered table is summarized. -/
theorem Browsing.summarize {entry : CatalogEntry}
    (hentry : start.catalog.entry? entry.table.id = some entry)
    (hlegible : entry.table.Legible (start.disk.content entry.table.location)) :
    ∃ summary after, (Store.summarize tid entry.table.id).perform store = (.ok summary, after) ∧
      Browsing start tid after ∧ Summarizes start.disk entry summary := by
  have hfound : start.catalog.entry entry.table.id = .ok entry := by
    rw [Catalog.entry, hentry]
  have htable : start.catalog.table entry.table.id = .ok entry.table := by
    rw [Catalog.table, hfound]
    rfl
  obtain ⟨rows, after, hscan, hafter, hlength⟩ := hbrowsing.scanAll hroom hsmall htable hlegible
  refine ⟨⟨entry.name, entry.table.id, after.pageCount entry.table, rows.length⟩, after, ?_, hafter,
    rfl, rfl, ?_, hlength⟩
  · simp only [perform_summarize, hbrowsing.catalog, hfound, hscan]
  · rw [Table.length_wholePages]
    show (after.pageCount entry.table).toNat = _
    rw [Store.pageCount, tableContent, hafter.disk,
      Table.pageCount_of_small (hsmall.of_table htable)]

/-- Registered tables are summarized one after the other. -/
theorem Browsing.summaries {entries : List CatalogEntry}
    (hentries : ∀ entry ∈ entries, start.catalog.entry? entry.table.id = some entry)
    (hlegible : ∀ entry ∈ entries,
      entry.table.Legible (start.disk.content entry.table.location)) :
    ∃ summaries after,
      ((entries.map (·.table.id)).mapM (Store.summarize tid)).perform store
        = (.ok summaries, after) ∧
      Browsing start tid after ∧ List.Forall₂ (Summarizes start.disk) entries summaries := by
  induction entries generalizing store with
  | nil => exact ⟨[], store, rfl, hbrowsing, .nil⟩
  | cons entry entries ih =>
      obtain ⟨hentry, hentries⟩ := List.forall_mem_cons.mp hentries
      obtain ⟨hfirst, hlegible⟩ := List.forall_mem_cons.mp hlegible
      obtain ⟨summary, mid, hsummary, hmid, hcounts⟩ :=
        hbrowsing.summarize hroom hsmall hentry hfirst
      obtain ⟨summaries, after, hsummaries, hafter, hall⟩ := ih hmid hentries hlegible
      refine ⟨summary :: summaries, after, ?_, hafter, .cons hcounts hall⟩
      simp only [List.map_cons, List.mapM_cons, perform_bind, hsummary, hsummaries, perform_pure]

omit hroom

/-- The commit of a reader writes its record behind the log and changes no other file. -/
theorem Browsing.commit :
    ∃ after, (Store.commit tid).perform store = (.ok (), after) ∧
      after.disk = (start.log.after start.disk tid .commit).2 := by
  have hagree :=
    endWith_agree hbrowsing.coherent (small_of_plain hbrowsing.plain hsmall) tid true
  rw [PlainStore.endWith_unchanged rfl] at hagree
  obtain ⟨⟨⟩, after, changed, hreal, -, -, hplain⟩ := hagree.of_ok
  refine ⟨after, hreal, ?_⟩
  have hdisk := congrArg PlainStore.disk hplain
  rw [hbrowsing.plain] at hdisk
  exact hdisk.symm

end

end Store

end HeapStore
