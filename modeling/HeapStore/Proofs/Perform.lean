import HeapStore.Proofs.Action
import HeapStore.Proofs.Catalog
import HeapStore.Proofs.Pool
import HeapStore.Store.Operation

/-!
# The actions of the store as functions

What each action of the store gives, as a function of the store.  Proofs about the store start
from these equations and do not open the actions again.
-/

namespace HeapStore

/-- A page that was written back: clean, with its present bytes as the former ones. -/
def Page.settled (page : Page) : Page :=
  (page.withOwner none).snapshot

namespace Catalog

/-- Reads a page of a registered table from the disk. -/
def read (catalog : Catalog) (disk : Disk) (address : PageAddress) : Except StoreError Page :=
  match catalog.table address.table with
  | .error error => .error error
  | .ok table => table.readPage (disk.content table.location) address

theorem table_of_read {catalog : Catalog} {disk : Disk} {address : PageAddress} {page : Page}
    (hread : catalog.read disk address = .ok page) :
    ∃ table, catalog.table address.table = .ok table ∧
      table.readPage (disk.content table.location) address = .ok page := by
  unfold read at hread
  cases htable : catalog.table address.table with
  | error error => simp [htable] at hread
  | ok table => exact ⟨table, rfl, by simpa only [htable] using hread⟩

/-- The disk after a page was written to the file of its table in a flush. -/
def write (catalog : Catalog) (armed : Failpoints) (disk : Disk) (page : Page) :
    Except StoreError Disk :=
  match armed.check flushAfterForce with
  | .error error => .error error
  | .ok () =>
    match catalog.table page.address.table with
    | .error error => .error error
    | .ok table =>
      (table.writePage armed (disk.content table.location) page).map
        (disk.write table.location ·)

end Catalog

namespace Log

/-- The log and the disk after a record was written. -/
def after (log : Log) (disk : Disk) (tid : TransactionId) (record : LogRecord) : Log × Disk :=
  (log.write disk tid record).2

end Log

namespace Store

open HeapStore.Action

variable {tid : TransactionId} {address : PageAddress}

/-- The store after a record was written to its log. -/
def logged (store : Store) (tid : TransactionId) (record : LogRecord) : Store :=
  { store with
    log := (store.log.after store.disk tid record).1
    disk := (store.log.after store.disk tid record).2 }

/-- The store with another cache. -/
def withPool (store : Store) (pool : Pool) : Store :=
  { store with pool := pool }

/-! ## Pages -/

theorem perform_table (id : TableId) (store : Store) :
    (Store.table id).perform store = (store.catalog.table id, store) := by
  simp only [Store.table, perform_bind, perform_get, perform_ofExcept]

theorem perform_logRecord (record : LogRecord) (store : Store) :
    (logRecord tid record).perform store = (.ok store.log.next, store.logged tid record) := rfl

theorem perform_lockPage (mode : LockMode) (store : Store) :
    (lockPage tid address mode).perform store =
      match store.pool.locks.acquire address tid mode with
      | .error error => (.error error, store)
      | .ok locks => (.ok (), store.withLocks locks) := by
  simp only [lockPage, perform_bind, perform_get, perform_ofExcept]
  cases store.pool.locks.acquire address tid mode with
  | error error => rfl
  | ok locks => rfl

theorem perform_evictPage (latched : List Nat) (store : Store) :
    (evictPage latched).perform store =
      match store.pool.evict latched with
      | .error error => (.error error, store)
      | .ok pool => (.ok (), store.withPool pool) := by
  simp only [evictPage, perform_bind, perform_get, perform_ofExcept]
  cases store.pool.evict latched with
  | error error => rfl
  | ok pool => rfl

theorem perform_readPage (store : Store) :
    (readPage address).perform store = (store.catalog.read store.disk address, store) := by
  simp only [readPage, perform_bind, perform_get, perform_ofExcept, perform_table, Catalog.read]
  cases store.catalog.table address.table with
  | error error => rfl
  | ok table => rfl

/-- A page from the cache, or from the file into the cache. -/
def fetch (store : Store) (address : PageAddress) (latched : List Nat) :
    Except StoreError Frame × Store :=
  match store.pool.find? address with
  | some frame => (.ok frame, store)
  | none =>
    match store.pool.makeRoom latched with
    | .error error => (.error error, store)
    | .ok pool =>
      match store.catalog.read store.disk address with
      | .error error => (.error error, store.withPool pool)
      | .ok page => (.ok (pool.load page).1, store.withPool (pool.load page).2)

theorem perform_loadPage {latched : List Nat} {store : Store}
    (hfind : store.pool.find? address = none) :
    (loadPage address latched).perform store = store.fetch address latched := by
  simp only [loadPage, perform_bind, perform_get, perform_ofExcept, perform_set, perform_readPage,
    fetch, hfind]
  cases store.pool.makeRoom latched with
  | error error => rfl
  | ok pool =>
      cases store.catalog.read store.disk address with
      | error error => rfl
      | ok page => rfl

theorem perform_getPage (access : Access) (latched : List Nat) (store : Store) :
    (getPage tid address access latched).perform store =
      match store.pool.locks.acquire address tid access.lockMode with
      | .error error => (.error error, store)
      | .ok locks => (store.withLocks locks).fetch address latched := by
  simp only [getPage, perform_bind, perform_lockPage]
  cases store.pool.locks.acquire address tid access.lockMode with
  | error error => rfl
  | ok locks =>
      simp only [perform_get]
      cases hfind : (store.withLocks locks).pool.find? address with
      | some frame => simp only [fetch, hfind, perform_pure]
      | none => exact perform_loadPage hfind

/-- A page that is fetched is the cached one, or it was read from its file and loaded. -/
theorem of_fetch {latched : List Nat} {store after : Store} {frame : Frame}
    (hfetch : store.fetch address latched = (.ok frame, after)) :
    store.pool.find? address = some frame ∧ after = store ∨
    store.pool.find? address = none ∧ ∃ pool page, store.pool.makeRoom latched = .ok pool ∧
      store.catalog.read store.disk address = .ok page ∧ frame = (pool.load page).1 ∧
      after = store.withPool (pool.load page).2 := by
  unfold fetch at hfetch
  cases hfind : store.pool.find? address with
  | some found =>
      simp only [hfind, Prod.mk.injEq, Except.ok.injEq] at hfetch
      exact .inl ⟨congrArg some hfetch.1, hfetch.2.symm⟩
  | none =>
      simp only [hfind] at hfetch
      cases hmade : store.pool.makeRoom latched with
      | error error => simp [hmade] at hfetch
      | ok pool =>
          simp only [hmade] at hfetch
          cases hread : store.catalog.read store.disk address with
          | error error => simp [hread] at hfetch
          | ok page =>
              simp only [hread, Prod.mk.injEq, Except.ok.injEq] at hfetch
              exact .inr ⟨rfl, pool, page, rfl, rfl, hfetch.1.symm, hfetch.2.symm⟩

/-- A page that is got was fetched under a lock. -/
theorem of_getPage {access : Access} {latched : List Nat} {store after : Store} {frame : Frame}
    (hget : (getPage tid address access latched).perform store = (.ok frame, after)) :
    ∃ locks, store.pool.locks.acquire address tid access.lockMode = .ok locks ∧
      (store.withLocks locks).fetch address latched = (.ok frame, after) := by
  rw [perform_getPage] at hget
  cases hacquire : store.pool.locks.acquire address tid access.lockMode with
  | error error => simp [hacquire] at hget
  | ok locks => exact ⟨locks, rfl, by simpa only [hacquire] using hget⟩

/-- To get a page changes nothing but the cache. -/
theorem getPage_withPool (tid : TransactionId) (address : PageAddress) (access : Access)
    (latched : List Nat) (store : Store) :
    ∃ pool, ((getPage tid address access latched).perform store).2 = store.withPool pool := by
  rw [perform_getPage]
  split
  · exact ⟨store.pool, rfl⟩
  · unfold fetch
    split
    · exact ⟨_, rfl⟩
    · split
      · exact ⟨_, rfl⟩
      · split
        · exact ⟨_, rfl⟩
        · exact ⟨_, rfl⟩

theorem perform_replacePage (stamp : Nat) (page : Page) (store : Store) :
    (replacePage stamp page).perform store =
      (.ok (), store.withPool (store.pool.replace stamp page)) := rfl

/-! ## Tables -/

theorem perform_openTable (path name : String) (schema : Schema) (primaryKey : Option String)
    (pageSize : Nat) (store : Store) :
    (openTable path name schema primaryKey pageSize).perform store =
      match Table.openFile store.disk path schema pageSize with
      | (.error error, disk) => (.error error, { store with disk := disk })
      | (.ok table, disk) =>
        match store.catalog.add table name primaryKey with
        | .error error => (.error error, { store with disk := disk })
        | .ok catalog => (.ok table, { store with disk := disk, catalog := catalog }) := by
  simp only [openTable, perform_bind, perform_get, perform_set, perform_ofExcept]
  rcases Table.openFile store.disk path schema pageSize with ⟨opened, disk⟩
  cases opened with
  | error error => rfl
  | ok table =>
      simp only
      cases store.catalog.add table name primaryKey with
      | error error => rfl
      | ok catalog => rfl

theorem perform_openDefined_cons (directory line : String) (rest : List String) (store : Store) :
    (openDefined directory (line :: rest)).perform store =
      match CatalogLine.parse line with
      | .error error => (.error error, store)
      | .ok definition =>
        match (openTable (Path.join directory (definition.name ++ ".dat")) definition.name
            definition.schema definition.primaryKey store.catalog.pageSize).perform store with
        | (.error error, after) => (.error error, after)
        | (.ok table, after) =>
          (((openDefined directory rest).perform after).1.map (table.id :: ·),
            ((openDefined directory rest).perform after).2) := by
  simp only [openDefined, perform_bind, perform_ofExcept]
  cases CatalogLine.parse line with
  | error error => rfl
  | ok definition =>
      simp only [perform_get]
      rcases (openTable (Path.join directory (definition.name ++ ".dat")) definition.name
        definition.schema definition.primaryKey store.catalog.pageSize).perform store
        with ⟨opened, after⟩
      cases opened with
      | error error => rfl
      | ok table =>
          simp only
          rcases (openDefined directory rest).perform after with ⟨result, last⟩
          cases result with
          | error error => rfl
          | ok ids => rfl

/-- A catalog file that cannot be read changes nothing; one that can is worked off line by line. -/
theorem perform_loadSchema_cases (path : String) (store : Store) :
    (∃ error, (loadSchema path).perform store = (.error error, store)) ∨
      ∃ directory lines,
        (loadSchema path).perform store = (openDefined directory lines).perform store := by
  simp only [loadSchema, perform_bind, perform_get]
  split
  · split
    · exact Or.inr ⟨_, _, rfl⟩
    · exact Or.inl ⟨_, rfl⟩
  · exact Or.inl ⟨_, rfl⟩
  · exact Or.inl ⟨_, rfl⟩

/-- What every opening of a table keeps, the opening of all tables of a catalog file keeps. -/
theorem related_openDefined (related : Store → Store → Prop)
    (hrefl : ∀ store, related store store)
    (htrans : ∀ {first mid last}, related first mid → related mid last → related first last)
    (hopen : ∀ path name schema primaryKey pageSize store,
      related store ((openTable path name schema primaryKey pageSize).perform store).2)
    (directory : String) (lines : List String) (store : Store) :
    related store ((openDefined directory lines).perform store).2 := by
  induction lines generalizing store with
  | nil => exact hrefl store
  | cons line lines ih =>
      rw [perform_openDefined_cons]
      split
      · exact hrefl store
      · rename_i definition _
        have hopened := hopen (Path.join directory (definition.name ++ ".dat")) definition.name
          definition.schema definition.primaryKey store.catalog.pageSize store
        revert hopened
        rcases (openTable (Path.join directory (definition.name ++ ".dat")) definition.name
          definition.schema definition.primaryKey store.catalog.pageSize).perform store
          with ⟨opened, after⟩
        intro hopened
        cases opened with
        | error error => exact hopened
        | ok table => exact htrans hopened (ih after)

theorem related_loadSchema (related : Store → Store → Prop)
    (hrefl : ∀ store, related store store)
    (htrans : ∀ {first mid last}, related first mid → related mid last → related first last)
    (hopen : ∀ path name schema primaryKey pageSize store,
      related store ((openTable path name schema primaryKey pageSize).perform store).2)
    (path : String) (store : Store) : related store ((loadSchema path).perform store).2 := by
  rcases perform_loadSchema_cases path store with ⟨error, hload⟩ | ⟨directory, lines, hload⟩
  · rw [hload]
    exact hrefl store
  · rw [hload]
    exact related_openDefined related hrefl htrans hopen directory lines store

/-! ## Flushing and restoring -/

theorem perform_writePage (table : Table) (page : Page) (store : Store) :
    (writePage table page).perform store =
      match table.writePage store.armed (store.disk.content table.location) page with
      | .error error => (.error error, store)
      | .ok content =>
        (.ok (), { store with disk := store.disk.write table.location content }) := by
  simp only [writePage, perform_bind, perform_get, perform_ofExcept, tableContent]
  cases table.writePage store.armed (store.disk.content table.location) page with
  | error error => rfl
  | ok content => rfl

theorem perform_flushFrame (frame : Frame) (owner : TransactionId) (store : Store) :
    (flushFrame frame owner).perform store =
      match frame.page.beforeImage with
      | .error error => (.error error, store)
      | .ok before =>
        let logged := store.logged owner
          (.update frame.page.address before.bytes frame.page.bytes)
        match logged.catalog.write logged.armed logged.disk frame.page with
        | .error error => (.error error, logged)
        | .ok disk =>
          (.ok (), { logged with
            disk := disk
            pool := logged.pool.replace frame.stamp frame.page.settled }) := by
  simp only [flushFrame, perform_bind, perform_ofExcept]
  cases frame.page.beforeImage with
  | error error => rfl
  | ok before =>
      simp only [perform_logRecord]
      generalize store.logged owner _ = logged
      simp only [checkFailpoint, perform_bind, perform_get, perform_ofExcept, perform_table,
        perform_writePage, Catalog.write]
      cases logged.armed.check flushAfterForce with
      | error error => rfl
      | ok _ =>
          simp only
          cases logged.catalog.table frame.page.address.table with
          | error error => rfl
          | ok table =>
              simp only
              cases table.writePage logged.armed (logged.disk.content table.location)
                frame.page with
              | error error => rfl
              | ok content => rfl

theorem perform_flushPage (store : Store) :
    (flushPage address).perform store =
      match store.pool.find? address with
      | none => (.ok (), store)
      | some frame =>
        match frame.page.owner with
        | none => (.ok (), store)
        | some owner => (flushFrame frame owner).perform store := by
  simp only [flushPage, perform_bind, perform_get]
  cases store.pool.find? address with
  | none => rfl
  | some frame =>
      cases howner : frame.page.owner with
      | none => simp only [howner, perform_pure]
      | some owner => simp only [howner]

/-- What a flush can do: nothing, or to write a log record only, or to write the page as well. -/
theorem flushPage_cases (address : PageAddress) (store : Store) :
    (∃ result, (flushPage address).perform store = (result, store) ∧
      (result = .ok () → ∀ frame, store.pool.find? address = some frame →
        frame.page.owner = none)) ∨
    (∃ error owner record,
      (flushPage address).perform store = (.error error, store.logged owner record)) ∨
    ∃ frame owner record disk, store.pool.find? address = some frame ∧
      frame.page.owner = some owner ∧
      store.catalog.write store.armed (store.logged owner record).disk frame.page = .ok disk ∧
      (flushPage address).perform store = (.ok (), { store.logged owner record with
        disk := disk
        pool := store.pool.replace frame.stamp frame.page.settled }) := by
  rw [perform_flushPage]
  cases hfind : store.pool.find? address with
  | none => exact Or.inl ⟨_, rfl, fun _ frame hframe => absurd hframe (by simp)⟩
  | some frame =>
      simp only
      cases howner : frame.page.owner with
      | none =>
          refine Or.inl ⟨_, rfl, ?_⟩
          intro _ found hfound
          rw [← Option.some.inj hfound, howner]
      | some owner =>
          simp only [perform_flushFrame]
          cases frame.page.beforeImage with
          | error error => exact Or.inl ⟨_, rfl, fun hok => absurd hok (by simp)⟩
          | ok before =>
              simp only
              generalize LogRecord.update _ _ _ = record
              cases hwrite : (store.logged owner record).catalog.write
                  (store.logged owner record).armed (store.logged owner record).disk frame.page with
              | error error => exact Or.inr (Or.inl ⟨error, owner, record, rfl⟩)
              | ok disk =>
                  exact Or.inr (Or.inr ⟨frame, owner, record, disk, rfl, howner, hwrite, rfl⟩)

theorem perform_restorePage (store : Store) :
    (restorePage address).perform store =
      match store.pool.find? address with
      | none => (.ok (), store)
      | some frame =>
        match store.catalog.read store.disk address with
        | .error error => (.error error, store)
        | .ok page => (.ok (), store.withPool (store.pool.replace frame.stamp page)) := by
  simp only [restorePage, perform_bind, perform_get]
  cases store.pool.find? address with
  | none => rfl
  | some frame =>
      simp only [perform_bind, perform_readPage]
      cases store.catalog.read store.disk address with
      | error error => rfl
      | ok page => rfl

theorem perform_forM_cons {α : Type} (work : α → Action Unit) (item : α) (items : List α)
    (store : Store) :
    ((item :: items).forM work).perform store =
      match (work item).perform store with
      | (.error error, after) => (.error error, after)
      | (.ok (), after) => (items.forM work).perform after := by
  show (work item >>= fun _ => items.forM work).perform store = _
  rw [perform_bind]
  rcases (work item).perform store with ⟨result, after⟩
  cases result with
  | error error => rfl
  | ok _ => rfl

/-- What the work on each item keeps, the work on one item after the other keeps, wherever it
stops. -/
theorem related_forM (related : Store → Store → Prop) (hrefl : ∀ store, related store store)
    (htrans : ∀ {first mid last}, related first mid → related mid last → related first last)
    {α : Type} {work : α → Action Unit} {items : List α}
    (hwork : ∀ item ∈ items, ∀ store, related store ((work item).perform store).2)
    (store : Store) : related store ((items.forM work).perform store).2 := by
  induction items generalizing store with
  | nil => exact hrefl store
  | cons item items ih =>
      obtain ⟨hitem, hitems⟩ := List.forall_mem_cons.mp hwork
      have hfirst := hitem store
      rw [perform_forM_cons]
      revert hfirst
      rcases (work item).perform store with ⟨result, after⟩
      intro hfirst
      cases result with
      | error error => exact hfirst
      | ok _ => exact htrans hfirst (ih hitems after)

/-! ## Rows -/

theorem perform_insertInto (frame : Frame) (row : Row) (store : Store) :
    (insertInto frame row).perform store =
      match frame.page.insert row with
      | .error error => (.error error, store)
      | .ok (placed, page) =>
        (.ok ({ frame with page := page }, placed),
          store.withPool (store.pool.replace frame.stamp page)) := by
  simp only [insertInto, perform_bind, perform_ofExcept]
  cases frame.page.insert row with
  | error error => rfl
  | ok result => rfl

theorem perform_growTable (table : Table) (store : Store) :
    (growTable table).perform store =
      match table.appendPage store.armed (store.disk.content table.location) with
      | .error error => (.error error, store)
      | .ok (address, content) =>
        (.ok address, { store with disk := store.disk.write table.location content }) := by
  simp only [growTable, perform_bind, perform_get, perform_ofExcept, tableContent]
  cases table.appendPage store.armed (store.disk.content table.location) with
  | error error => rfl
  | ok result => rfl

/-- Looks for a page with a free slot among `count` pages from page `number` on. -/
def seek (tid : TransactionId) (table : Table) :
    (count number : Nat) → Store → Except StoreError (Option Frame) × Store
  | 0, _, store => (.ok none, store)
  | count + 1, number, store =>
    let address : PageAddress := ⟨table.id, UInt32.ofNat number⟩
    match (getPage tid address .readWrite []).perform store with
    | (.error error, after) => (.error error, after)
    | (.ok frame, after) =>
      if 0 < frame.page.freeSlots then (.ok (some frame), after)
      else seek tid table count (number + 1)
        (if store.pool.locks.holds address tid then after
          else after.withLocks (after.pool.locks.release address tid))

/-- What the reading of pages and the giving up of locks keep, the search for a free slot keeps. -/
theorem related_seek (related : Store → Store → Prop) (hrefl : ∀ store, related store store)
    (htrans : ∀ {first mid last}, related first mid → related mid last → related first last)
    (hget : ∀ address store,
      related store ((getPage tid address .readWrite []).perform store).2)
    (hlocks : ∀ locks (store : Store), related store (store.withLocks locks))
    (table : Table) (count number : Nat) (store : Store) :
    related store (seek tid table count number store).2 := by
  induction count generalizing number store with
  | zero => exact hrefl store
  | succ count ih =>
      have hpage := hget ⟨table.id, UInt32.ofNat number⟩ store
      simp only [seek]
      revert hpage
      rcases (getPage tid ⟨table.id, UInt32.ofNat number⟩ .readWrite []).perform store
        with ⟨result, after⟩
      intro hpage
      cases result with
      | error error => exact hpage
      | ok frame =>
          simp only
          split
          · exact hpage
          · split
            · exact htrans hpage (ih (number + 1) after)
            · exact htrans hpage (htrans (hlocks _ after) (ih (number + 1) _))

theorem perform_insertFrom (table : Table) (row : Row) (count number : Nat) (store : Store) :
    (insertFrom tid table row count number).perform store =
      match seek tid table count number store with
      | (.error error, after) => (.error error, after)
      | (.ok none, after) => (.ok none, after)
      | (.ok (some frame), after) => (some <$> insertInto frame row).perform after := by
  induction count generalizing number store with
  | zero => rfl
  | succ count ih =>
      simp only [insertFrom, seek, perform_bind, perform_get]
      rcases (getPage tid ⟨table.id, UInt32.ofNat number⟩ .readWrite []).perform store with
        ⟨result, after⟩
      cases result with
      | error error => rfl
      | ok frame =>
          simp only
          split
          · simp only [perform_map, perform_bind]
            rcases (insertInto frame row).perform after with ⟨result, last⟩
            cases result with
            | error error => rfl
            | ok placed => rfl
          · rw [← ih]
            cases store.pool.locks.holds ⟨table.id, UInt32.ofNat number⟩ tid with
            | true => rfl
            | false => rfl

/-- A page with a free slot, in the table that has grown if need be. -/
def room (tid : TransactionId) (table : Table) (store : Store) :
    Except StoreError Frame × Store :=
  match seek tid table (store.pageCount table).toNat 0 store with
  | (.error error, after) => (.error error, after)
  | (.ok (some frame), after) => (.ok frame, after)
  | (.ok none, after) =>
    match (growTable table).perform after with
    | (.error error, grown) => (.error error, grown)
    | (.ok address, grown) => (getPage tid address .readWrite []).perform grown

/-- What the search for a free slot, the growing of the table and the reading of pages keep, the
finding of a page with room keeps. -/
theorem related_room (related : Store → Store → Prop)
    (htrans : ∀ {first mid last}, related first mid → related mid last → related first last)
    (table : Table)
    (hseek : ∀ count number store, related store (seek tid table count number store).2)
    (hgrow : ∀ store, related store ((growTable table).perform store).2)
    (hget : ∀ address store,
      related store ((getPage tid address .readWrite []).perform store).2)
    (store : Store) : related store (store.room tid table).2 := by
  have hsought := hseek (store.pageCount table).toNat 0 store
  unfold room
  revert hsought
  rcases seek tid table (store.pageCount table).toNat 0 store with ⟨result, mid⟩
  intro hsought
  cases result with
  | error error => exact hsought
  | ok found =>
      cases found with
      | some frame => exact hsought
      | none =>
          have hgrown := hgrow mid
          simp only
          revert hgrown
          rcases (growTable table).perform mid with ⟨result, grown⟩
          intro hgrown
          cases result with
          | error error => exact htrans hsought hgrown
          | ok address => exact htrans hsought (htrans hgrown (hget address grown))

theorem perform_placeRow (table : Table) (row : Row) (store : Store) :
    (placeRow tid table row).perform store =
      if row.schema.compatible table.schema then
        match store.room tid table with
        | (.error error, after) => (.error error, after)
        | (.ok frame, after) => (insertInto frame row).perform after
      else (.error (.schemaMismatch table.id), store) := by
  unfold placeRow
  cases row.schema.compatible table.schema with
  | false => rfl
  | true =>
      simp only [Bool.not_true, Bool.false_eq_true, if_false, if_true, perform_bind, perform_get,
        perform_insertFrom, room]
      rcases seek tid table (store.pageCount table).toNat 0 store with ⟨result, after⟩
      cases result with
      | error error => rfl
      | ok found =>
          cases found with
          | some frame =>
              simp only [perform_map]
              rcases (insertInto frame row).perform after with ⟨result, last⟩
              cases result with
              | error error => rfl
              | ok placed => rfl
          | none =>
              simp only [perform_bind]
              rcases (growTable table).perform after with ⟨result, grown⟩
              cases result with
              | error error => rfl
              | ok address =>
                  simp only
                  rcases (getPage tid address .readWrite []).perform grown with ⟨result, last⟩
                  cases result with
                  | error error => rfl
                  | ok frame => rfl

/-- The store after the content of a frame was changed by a transaction. -/
def withChange (store : Store) (tid : TransactionId) (frame : Frame) (page : Page) : Store :=
  store.withPool (store.pool.replace frame.stamp (page.withOwner (some tid)))

theorem perform_insertRow (id : TableId) (row : Row) (store : Store) :
    (insertRow tid id row).perform store =
      match store.catalog.table id with
      | .error error => (.error error, store)
      | .ok table =>
        if row.schema.compatible table.schema then
          match store.room tid table with
          | (.error error, after) => (.error error, after)
          | (.ok frame, after) =>
            match frame.page.insert row with
            | .error error => (.error error, after)
            | .ok (placed, page) => (.ok placed, after.withChange tid frame page)
        else (.error (.schemaMismatch table.id), store) := by
  simp only [insertRow, perform_bind, perform_table]
  cases store.catalog.table id with
  | error error => rfl
  | ok table =>
      simp only [perform_placeRow]
      cases row.schema.compatible table.schema with
      | false => rfl
      | true =>
          simp only [if_true]
          rcases store.room tid table with ⟨result, after⟩
          cases result with
          | error error => rfl
          | ok frame =>
              simp only [perform_insertInto]
              cases frame.page.insert row with
              | error error => rfl
              | ok result =>
                  obtain ⟨placed, page⟩ := result
                  simp only [markDirty, perform_replacePage, perform_pure, withChange, withPool,
                    Pool.replace_replace]

theorem perform_deleteRow (row : Row) (store : Store) :
    (deleteRow tid row).perform store =
      match row.address with
      | none => (.error .missingAddress, store)
      | some place =>
        match store.catalog.table place.page.table with
        | .error error => (.error error, store)
        | .ok table =>
          if place.page.table ≠ table.id then (.error (.rowNotOnPage place.page), store)
          else
            match (getPage tid place.page .readWrite []).perform store with
            | (.error error, after) => (.error error, after)
            | (.ok frame, after) =>
              match frame.page.delete row with
              | .error error => (.error error, after)
              | .ok page => (.ok (), after.withChange tid frame page) := by
  simp only [deleteRow, removeRow]
  cases row.address with
  | none => rfl
  | some place =>
      simp only [perform_bind, perform_table]
      cases store.catalog.table place.page.table with
      | error error => rfl
      | ok table =>
          by_cases hid : place.page.table = table.id
          · simp only [hid, ne_eq, not_true_eq_false, if_false, perform_bind]
            rcases (getPage tid place.page .readWrite []).perform store with ⟨result, after⟩
            cases result with
            | error error => rfl
            | ok frame =>
                simp only [perform_ofExcept]
                cases frame.page.delete row with
                | error error => rfl
                | ok page =>
                    simp only [markDirty, perform_replacePage, perform_pure, withChange, withPool,
                      Pool.replace_replace]
          · simp only [ne_eq, hid, not_false_eq_true, if_true]
            rfl

/-! ## Scans -/

/-- The rows of `count` pages from page `number` on, up to an error, which comes last. -/
def scanPages (tid : TransactionId) (table : Table) :
    (count number : Nat) → Store → List (Except StoreError Row) × Store
  | 0, _, store => ([], store)
  | count + 1, number, store =>
    match (getPage tid ⟨table.id, UInt32.ofNat number⟩ .readOnly []).perform store with
    | (.error error, after) => ([.error error], after)
    | (.ok frame, after) =>
      (frame.page.rows.map .ok ++ (scanPages tid table count (number + 1) after).1,
        (scanPages tid table count (number + 1) after).2)

/-- What the reading of pages keeps, a scan keeps. -/
theorem related_scanPages (related : Store → Store → Prop) (hrefl : ∀ store, related store store)
    (htrans : ∀ {first mid last}, related first mid → related mid last → related first last)
    (hget : ∀ address store,
      related store ((getPage tid address .readOnly []).perform store).2)
    (table : Table) (count number : Nat) (store : Store) :
    related store (scanPages tid table count number store).2 := by
  induction count generalizing number store with
  | zero => exact hrefl store
  | succ count ih =>
      have hpage := hget ⟨table.id, UInt32.ofNat number⟩ store
      unfold scanPages
      revert hpage
      rcases (getPage tid ⟨table.id, UInt32.ofNat number⟩ .readOnly []).perform store
        with ⟨result, after⟩
      intro hpage
      cases result with
      | error error => exact hpage
      | ok frame => exact htrans hpage (ih (number + 1) after)

theorem perform_pageRows (cursor : Cursor) (number : Nat) (store : Store) :
    (cursor.pageRows number).perform store =
      (((getPage cursor.transaction ⟨cursor.table.id, UInt32.ofNat number⟩ .readOnly []).perform
          store).1.map (·.page.rows),
        ((getPage cursor.transaction ⟨cursor.table.id, UInt32.ofNat number⟩ .readOnly []).perform
          store).2) := by
  simp only [Cursor.pageRows, perform_bind]
  rcases (getPage cursor.transaction ⟨cursor.table.id, UInt32.ofNat number⟩ .readOnly []).perform
    store with ⟨result, after⟩
  cases result with
  | error error => rfl
  | ok frame => rfl

/-- The walk of a cursor goes over the pages that the file has, for a scan does not change it. -/
theorem rest_eq (cursor : Cursor) (store : Store) (hopen : cursor.isOpen = true) :
    let left := (store.pageCount cursor.table).toNat - cursor.nextPage
    let pages := scanPages cursor.transaction cursor.table left cursor.nextPage store
    (cursor.rest store).1.1 = cursor.pending.map .ok ++ pages.1 ∧
      (cursor.rest store).2 = pages.2 := by
  simp only
  induction hleft : (store.pageCount cursor.table).toNat - cursor.nextPage
    generalizing cursor store with
  | zero =>
      have hend : ¬ cursor.nextPage < (store.pageCount cursor.table).toNat := by omega
      rw [Cursor.rest]
      simp [hopen, hend, scanPages]
  | succ left ih =>
      have hmore : cursor.nextPage < (store.pageCount cursor.table).toNat := by omega
      rw [Cursor.rest]
      simp only [hopen, if_true, hmore, dite_true, perform_pageRows, scanPages]
      obtain ⟨pool, hpool⟩ := getPage_withPool cursor.transaction
        ⟨cursor.table.id, UInt32.ofNat cursor.nextPage⟩ .readOnly [] store
      revert hpool
      rcases (getPage cursor.transaction ⟨cursor.table.id, UInt32.ofNat cursor.nextPage⟩
        .readOnly []).perform store with ⟨result, after⟩
      intro hpool
      cases result with
      | error error => exact ⟨rfl, rfl⟩
      | ok frame =>
          obtain rfl : after = store.withPool pool := hpool
          have hcount : (store.withPool pool).pageCount cursor.table
              = store.pageCount cursor.table := rfl
          obtain ⟨hrows, hlast⟩ := ih
            ⟨cursor.table, cursor.transaction, cursor.nextPage + 1, frame.page.rows, true⟩
            (store.withPool pool) rfl (by simp only [hcount]; omega)
          simp only [Except.map]
          exact ⟨by rw [hrows], hlast⟩

theorem perform_scan (id : TableId) (store : Store) :
    (scan tid id).perform store =
      match store.catalog.table id with
      | .error error => (.error error, store)
      | .ok table =>
        let pages := scanPages tid table (store.pageCount table).toNat 0 store
        (.ok pages.1, pages.2) := by
  simp only [scan, perform_bind, perform_table, perform_get]
  cases store.catalog.table id with
  | error error => rfl
  | ok table =>
      obtain ⟨hrows, hafter⟩ := rest_eq (Cursor.start table tid) store rfl
      simp only [perform_set, perform_pure, hrows, hafter]
      rfl

/-! ## Transactions -/

/-- The record of how a transaction ended. -/
def outcome (committed : Bool) : LogRecord :=
  if committed then .commit else .abort

theorem perform_complete (commit : Bool) (store : Store) :
    (complete tid commit).perform store =
      match ((store.pool.dirtiedBy tid).forM fun address =>
          if commit then flushPage address else restorePage address).perform store with
      | (.error error, after) => (.error error, after)
      | (.ok (), after) => (.ok (), after.withLocks (after.pool.locks.releaseAll tid)) := by
  simp only [complete, perform_bind, perform_get]
  generalize (List.forM _ _ : Action Unit).perform store = result
  obtain ⟨result, after⟩ := result
  cases result with
  | error error => rfl
  | ok _ => rfl

theorem perform_finish (commit : Bool) (store : Store) :
    (finish tid commit).perform store =
      match (complete tid commit).perform store with
      | (.error error, after) => (.error error, after)
      | (.ok (), after) => (.ok (), after.logged tid (outcome commit)) := by
  simp only [finish, perform_bind]
  rcases (complete tid commit).perform store with ⟨result, after⟩
  cases result with
  | error error => rfl
  | ok _ => rfl

theorem perform_abandon (store : Store) :
    (abandon tid).perform store = (.ok (), ((finish tid false).perform store).2) := by
  rcases hrun : (finish tid false).perform store with ⟨result, after⟩
  have hact : (finish tid false) store = (result, after) := hrun
  -- the handler returns early, so the monad is opened down to functions of the store
  cases result with
  | error error =>
      simp only [abandon, Action.perform, ExceptT.run, StateT.run, tryCatch, tryCatchThe,
        MonadExceptOf.tryCatch, bind, ExceptT.bind, ExceptT.mk, StateT.bind, pure,
        ExceptT.tryCatch, hact]
      rfl
  | ok _ =>
      simp only [abandon, Action.perform, ExceptT.run, StateT.run, tryCatch, tryCatchThe,
        MonadExceptOf.tryCatch, bind, ExceptT.bind, ExceptT.mk, StateT.bind, pure,
        ExceptT.tryCatch, hact, ExceptT.bindCont]
      rfl

theorem perform_endWith (commit : Bool) (store : Store) :
    (endWith tid commit).perform store =
      match (finish tid commit).perform store with
      | (.error error, after) => (.error error, ((finish tid false).perform after).2)
      | (.ok (), after) => (.ok (), after) := by
  simp only [endWith, perform_tryCatch, perform_bind, perform_abandon]
  rcases (finish tid commit).perform store with ⟨result, after⟩
  cases result with
  | error error => rfl
  | ok _ => rfl

section

variable (related : Store → Store → Prop) (hrefl : ∀ store, related store store)
  (htrans : ∀ {first mid last}, related first mid → related mid last → related first last)
  (hflush : ∀ address store, related store ((flushPage address).perform store).2)
  (hrestore : ∀ address store, related store ((restorePage address).perform store).2)
  (hlocks : ∀ locks (store : Store), related store (store.withLocks locks))
  (hlog : ∀ tid record (store : Store), related store (store.logged tid record))

include hrefl htrans hflush hrestore hlocks

/-- What flushes and restores of pages keep, and the giving up of locks, a transaction keeps when
it is completed. -/
theorem related_complete (commit : Bool) (store : Store) :
    related store ((complete tid commit).perform store).2 := by
  rw [perform_complete]
  -- a commit flushes the pages of its transaction, an abort restores them
  have hwork : ∀ address ∈ store.pool.dirtiedBy tid, ∀ store, related store
      ((if commit then flushPage address else restorePage address).perform store).2 := by
    intro address _ store
    cases commit with
    | true => exact hflush address store
    | false => exact hrestore address store
  have hwalk := related_forM related hrefl htrans hwork store
  revert hwalk
  generalize (List.forM _ _ : Action Unit).perform store = walked
  obtain ⟨result, after⟩ := walked
  intro hwalk
  cases result with
  | error error => exact hwalk
  | ok _ => exact htrans hwalk (hlocks _ after)

include hlog

/-- With the record of how it ended. -/
theorem related_finish (commit : Bool) (store : Store) :
    related store ((finish tid commit).perform store).2 := by
  have hcomplete : related store ((complete tid commit).perform store).2 :=
    related_complete related hrefl htrans hflush hrestore hlocks commit store
  rw [perform_finish]
  revert hcomplete
  rcases (complete tid commit).perform store with ⟨result, after⟩
  intro hcomplete
  cases result with
  | error error => exact hcomplete
  | ok _ => exact htrans hcomplete (hlog tid _ after)

/-- And with the abort after an end that fails. -/
theorem related_endWith (commit : Bool) (store : Store) :
    related store ((endWith tid commit).perform store).2 := by
  have hfinish : ∀ commit store, related store ((finish tid commit).perform store).2 :=
    related_finish related hrefl htrans hflush hrestore hlocks hlog
  have hends := hfinish commit store
  rw [perform_endWith]
  revert hends
  rcases (finish tid commit).perform store with ⟨result, after⟩
  intro hends
  cases result with
  | error error => exact htrans hends (hfinish false after)
  | ok _ => exact hends

end

/-! ## Steps that change rows -/

theorem step_insert (id : TableId) (row : Row) (store : Store) :
    store.step (.insert tid id row) =
      (((insertRow tid id row).perform store).1.map Reply.row,
        ((insertRow tid id row).perform store).2) :=
  perform_map _ _ _

theorem step_delete (row : Row) (store : Store) :
    store.step (.delete tid row) =
      (((deleteRow tid row).perform store).1.map fun _ => Reply.done,
        ((deleteRow tid row).perform store).2) :=
  perform_seqRight_pure _ _ _

end Store

end HeapStore
