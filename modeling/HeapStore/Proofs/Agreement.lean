import HeapStore.Proofs.Coherence

/-!
# Stores answer as plain stores do

`step_agree`: while the table files are below the limit of 32 bits, an operation gives on a coherent
store the answer that it gives on the plain store, and leaves coherent stores behind.  So what a
store answers does not depend on which clean pages it has cached.  The proof goes through the
functions of `HeapStore.Proofs.Perform` one by one.
-/

namespace HeapStore

/-- The two outcomes are the same error, or results that belong together; either way the second
store is the first one without its clean cached pages. -/
inductive Agree {α β : Type} (related : α → Store → β → Prop) :
    Except StoreError α × Store → PlainStore.Outcome β → Prop
  | ok {a : α} {b : β} {store : Store} {changed : List Page} (hcoherent : Coherent store changed)
      (hrelated : related a store b) : Agree related (.ok a, store) (.ok b, store.plain changed)
  | error {error : StoreError} {store : Store} {changed : List Page}
      (hcoherent : Coherent store changed) :
      Agree related (.error error, store) (.error error, store.plain changed)

/-- The frame is cached and shows the page. -/
def Shows (frame : Frame) (store : Store) (page : Page) : Prop :=
  frame ∈ store.pool.resident ∧ frame.page.normal = page

/-- The results are the same. -/
def Same {α : Type} (a : α) (_ : Store) (b : α) : Prop :=
  a = b

namespace Store

open PlainStore (Outcome)

variable {store : Store} {changed : List Page} {tid : TransactionId} {address : PageAddress}

theorem plain_withPool {pool : Pool} (hsettings : pool.settings = store.pool.settings)
    (hlocks : pool.locks = store.pool.locks) (changed : List Page) :
    (store.withPool pool).plain changed = store.plain changed := by
  simp [plain, withPool, hsettings, hlocks]

/-! ## Pages -/

/-- Room is made unless every page that fits was changed. -/
theorem makeRoom_cases (hcoherent : Coherent store changed) :
    (∃ pool, store.pool.makeRoom [] = .ok pool ∧ store.pool.Roomier pool ∧
        changed.length < store.pool.settings.capacity) ∨
      (store.pool.makeRoom [] = .error (.allPagesDirty changed.length) ∧
        store.pool.settings.capacity ≤ changed.length) := by
  by_cases hfull : store.pool.isFull = true
  · have hmake : store.pool.makeRoom [] = store.pool.evict [] := by
      simp [Pool.makeRoom, hfull]
    rw [hmake, Pool.evict_nil]
    cases hvictim : store.pool.victim? [] with
    | some victim =>
        obtain ⟨hmem, hclean⟩ := Pool.of_victim? hvictim
        exact Or.inl ⟨_, rfl, Pool.roomier_depart hcoherent.pool hmem hclean,
          hcoherent.length_changed_lt hmem hclean⟩
    | none =>
        have hlength := hcoherent.length_changed_of_all (Pool.victim?_eq_none.mp hvictim)
        refine Or.inr ⟨by rw [hlength], ?_⟩
        rw [hlength]
        simpa [Pool.isFull] using hfull
  · have hmake : store.pool.makeRoom [] = .ok store.pool := by
      simp [Pool.makeRoom, hfull]
    have hroom := Pool.roomier_of_makeRoom hcoherent.pool hmake
    exact Or.inl ⟨_, hmake, hroom, Nat.lt_of_le_of_lt hcoherent.length_changed_le hroom.room⟩

theorem fetch_agree (hcoherent : Coherent store changed)
    (hsmall : store.catalog.Small store.disk ∨ store.pool.find? address = none) :
    Agree Shows (store.fetch address [])
      ((store.plain changed).page address, store.plain changed) := by
  cases hfind : store.pool.find? address with
  | some frame =>
      obtain ⟨hframe, rfl⟩ := hcoherent.pool.find?_eq_some_iff.mp hfind
      have hfetch : store.fetch frame.page.address [] = (.ok frame, store) := by
        simp [fetch, hfind]
      have hpage : (store.plain changed).page frame.page.address = .ok frame.page.normal := by
        -- A cached page is changed, or it is what the file has.
        cases howner : frame.page.owner with
        | some owner =>
            exact PlainStore.page_of_changed
              (hcoherent.changed?_of_dirty hframe (by simp [howner]))
        | none =>
            have hfiled := hcoherent.filed_of_clean hframe howner
            have hroom := hcoherent.length_changed_lt hframe howner
            have hread : store.catalog.read store.disk frame.page.address
                = .ok frame.page.normal := by
              -- Where the files may be beyond the limit, the page is not cached.
              rcases hsmall with hsmall | hmissing
              · exact Catalog.read_of_filed? hsmall hfiled
              · rw [hfind] at hmissing
                exact absurd hmissing (by simp)
            have hunchanged := hcoherent.changed?_of_clean hframe howner
            exact (PlainStore.page_of_room hunchanged hroom).trans hread
      rw [hfetch, hpage]
      exact .ok hcoherent ⟨hframe, rfl⟩
  | none =>
      have hunchanged := hcoherent.changed?_of_uncached hfind
      simp only [fetch, hfind]
      rcases makeRoom_cases hcoherent with ⟨pool, hmake, hroom, hlt⟩ | ⟨hmake, hle⟩
      -- An eviction leaves the plain store as it is.
      · rw [hmake]
        have hkept := hcoherent.roomier hroom
        have hsame : (store.withPool pool).plain changed = store.plain changed :=
          plain_withPool hroom.settings hroom.locks changed
        rw [PlainStore.page_of_room hunchanged hlt]
        show Agree Shows _ (store.catalog.read store.disk address, store.plain changed)
        cases hread : store.catalog.read store.disk address with
        | error error =>
            rw [← hsame]
            exact .error hkept
        | ok page =>
            have hfiled := Catalog.filed?_of_read hread
            obtain ⟨haddress, hclean, hnormal, -⟩ := Catalog.of_filed? hfiled
            have hnew : page.address ∉ pool.cached := by
              rw [haddress]
              exact hroom.not_mem_cached hfind
            rw [← haddress] at hfiled
            have hload := hkept.load hnew hroom.room hfiled
            have hplain : ((store.withPool pool).withPool (pool.load page).2).plain changed
                = store.plain changed := by
              rw [← hsame]
              rfl
            rw [← hplain]
            refine .ok hload ⟨?_, hnormal⟩
            exact List.mem_append_right _ (List.mem_singleton_self _)
      · rw [hmake]
        rw [PlainStore.page_of_full hunchanged hle]
        exact .error hcoherent

theorem getPage_agree (hcoherent : Coherent store changed) (tid : TransactionId)
    (address : PageAddress) (access : Access)
    (hsmall : store.catalog.Small store.disk ∨ store.pool.find? address = none) :
    Agree Shows ((getPage tid address access []).perform store)
      ((store.plain changed).getPage tid address access) := by
  rw [perform_getPage]
  simp only [PlainStore.getPage, plain_locks]
  cases store.pool.locks.acquire address tid access.lockMode with
  | error error => exact .error hcoherent
  | ok locks => exact fetch_agree (hcoherent.withLocks locks) hsmall

/-! ## Rows -/

/-- Both found nothing, or the frame shows the page that was found. -/
def ShowsAny : Option Frame → Store → Option Page → Prop
  | some frame, store, some page => Shows frame store page
  | none, _, none => True
  | _, _, _ => False

theorem seek_agree (hcoherent : Coherent store changed)
    (hsmall : store.catalog.Small store.disk) (tid : TransactionId) (table : Table)
    (count number : Nat) :
    Agree ShowsAny (seek tid table count number store)
        (PlainStore.seek tid table count number (store.plain changed)) ∧
      ∃ pool, (seek tid table count number store).2 = store.withPool pool := by
  induction count generalizing number store changed with
  | zero => exact ⟨.ok hcoherent trivial, store.pool, rfl⟩
  | succ count ih =>
      have hpage := getPage_agree hcoherent tid ⟨table.id, UInt32.ofNat number⟩ .readWrite
        (Or.inl hsmall)
      obtain ⟨pool, hpool⟩ := getPage_withPool tid ⟨table.id, UInt32.ofNat number⟩ .readWrite []
        store
      simp only [seek, PlainStore.seek]
      revert hpage hpool
      generalize (getPage tid ⟨table.id, UInt32.ofNat number⟩ .readWrite []).perform store = real
      generalize (store.plain changed).getPage tid ⟨table.id, UInt32.ofNat number⟩ .readWrite
        = outcome
      intro hpage hpool
      cases hpage with
      | error hafter => exact ⟨.error hafter, pool, hpool⟩
      | ok hafter hshows =>
          rename_i frame page after still
          obtain rfl : after = store.withPool pool := hpool
          obtain ⟨hframe, rfl⟩ := hshows
          simp only [Page.freeSlots_normal]
          split
          · exact ⟨.ok hafter ⟨hframe, rfl⟩, pool, rfl⟩
          -- Both stores have the same locks, so both keep the lock or both give it up.
          · show Agree _ _ (PlainStore.seek _ _ _ _
              (if store.pool.locks.holds _ _ then _ else _)) ∧ _
            split
            · exact ih hafter hsmall (number + 1)
            · exact ih (hafter.withLocks _) hsmall (number + 1)

theorem grow_agree (hcoherent : Coherent store changed)
    (hsmall : store.catalog.Small store.disk) {id : TableId} {table : Table}
    (htable : store.catalog.table id = .ok table) :
    Agree (fun address after other => address = other ∧ after.pool.find? address = none)
      ((growTable table).perform store) ((store.plain changed).grow table) := by
  rw [perform_growTable]
  simp only [PlainStore.grow, plain_armed, plain_disk]
  cases happend : table.appendPage store.armed (store.disk.content table.location) with
  | error error => exact .error hcoherent
  | ok result =>
      obtain ⟨address, content⟩ := result
      obtain ⟨rfl, happended⟩ := Table.appended_of_appendPage happend
      obtain ⟨rfl, -⟩ := Catalog.of_table htable
      have hcatalog : store.catalog.Sound := hcoherent.sound.catalog
      have hpos : 0 < table.pageSize := by
        rw [hcatalog.pageSize_of_table htable]
        exact hcatalog.pos
      have hfile := hsmall.of_table htable
      -- no cached page lies behind the end of the file
      have hnew : ∀ frame ∈ store.pool.resident,
          frame.page.address ≠ ⟨table.id, table.pageCount (store.disk.content table.location)⟩ := by
        intro frame hframe heq
        obtain ⟨former, hfiled, -⟩ := hcoherent.filed_of_mem hframe
        rw [heq, Catalog.filed?_eq_of_table htable, Table.filed?_pageCount hfile] at hfiled
        exact absurd hfiled (by simp)
      have hafter : Coherent { store with
          log := store.log
          disk := store.disk.write table.location content } changed := by
        apply hcoherent.withDisk rfl
        intro frame hframe
        rw [Catalog.filed?_write hcatalog htable]
        split
        · rename_i heq
          have hnumber : frame.page.address.number
              ≠ table.pageCount (store.disk.content table.location) := by
            intro hsame
            apply hnew frame hframe
            rw [← hsame, ← heq]
          have hown : store.catalog.table frame.page.address.table = .ok table := by
            rw [heq]
            exact htable
          rw [happended.filed?_appended hpos hfile hnumber, Catalog.filed?_eq_of_table hown]
        · rfl
      refine .ok hafter ⟨rfl, ?_⟩
      cases hfind : store.pool.find?
          ⟨table.id, table.pageCount (store.disk.content table.location)⟩ with
      | none => rfl
      | some frame =>
          obtain ⟨hframe, heq⟩ := hcoherent.pool.find?_eq_some_iff.mp hfind
          exact absurd heq (hnew frame hframe)

theorem room_agree (hcoherent : Coherent store changed)
    (hsmall : store.catalog.Small store.disk) (tid : TransactionId) {id : TableId} {table : Table}
    (htable : store.catalog.table id = .ok table) :
    Agree Shows (store.room tid table) ((store.plain changed).room tid table) := by
  obtain ⟨hseek, pool, hpool⟩ := seek_agree hcoherent hsmall tid table
    (store.pageCount table).toNat 0
  have hcount : table.pageCount ((store.plain changed).disk.content table.location)
      = store.pageCount table := rfl
  simp only [room, PlainStore.room, hcount]
  revert hseek hpool
  generalize seek tid table (store.pageCount table).toNat 0 store = real
  generalize PlainStore.seek tid table (store.pageCount table).toNat 0 (store.plain changed)
    = outcome
  intro hseek hpool
  cases hseek with
  | error hafter => exact .error hafter
  | ok hafter hfound =>
      rename_i frame page after still
      obtain rfl : after = store.withPool pool := hpool
      cases frame with
      | some frame =>
          cases page with
          | some page => exact .ok hafter hfound
          | none => exact hfound.elim
      | none =>
          cases page with
          | some page => exact hfound.elim
          | none =>
              -- Nothing was found: the table grows, and its new page is not cached.
              have hgrow := grow_agree hafter hsmall htable
              simp only
              revert hgrow
              generalize (growTable table).perform (store.withPool pool) = real
              generalize ((store.withPool pool).plain still).grow table = outcome
              intro hgrow
              cases hgrow with
              | error hgrown => exact .error hgrown
              | ok hgrown hnew =>
                  obtain ⟨rfl, hfind⟩ := hnew
                  exact getPage_agree hgrown tid _ .readWrite (Or.inr hfind)

/-- A row that goes into a frame goes into the page that the frame shows. -/
theorem insert_agree {frame : Frame} {row : Row} (hcoherent : Coherent store changed)
    (hframe : frame ∈ store.pool.resident) (tid : TransactionId) (hvalid : row.Valid) :
    Agree Same
      (match frame.page.insert row with
        | .error error => (.error error, store)
        | .ok (placed, page) => (.ok placed, store.withChange tid frame page))
      (match frame.page.normal.insert row with
        | .error error => (.error error, store.plain changed)
        | .ok (placed, fuller) =>
          (.ok placed, (store.plain changed).put (fuller.withOwner (some tid)).normal)) := by
  have hsame := Page.insert_normal frame.page row
  have hsound := Page.sound_of_normal (hcoherent.sound_normal hframe)
  cases hinsert : frame.page.insert row with
  | error error =>
      rw [hinsert] at hsame
      cases hnormal : frame.page.normal.insert row with
      | ok result => simp [hnormal, Except.map] at hsame
      | error other =>
          simp only [hnormal, Except.map, Except.error.injEq] at hsame
          subst hsame
          exact .error hcoherent
  | ok result =>
      obtain ⟨placed, page⟩ := result
      rw [hinsert] at hsame
      obtain ⟨place, -, hinserted⟩ := Page.inserted_of_insert hinsert
      have hpage := Page.sound_of_insert hsound hvalid hinsert
      have hchange := hcoherent.change hframe tid hpage (by rw [hinserted.result]; rfl)
        (by rw [hinserted.result]; rfl) (by rw [hinserted.result]; rfl)
        (by rw [hinserted.result]; rfl)
      cases hnormal : frame.page.normal.insert row with
      | error error => simp [hnormal, Except.map] at hsame
      | ok other =>
          obtain ⟨placed', fuller⟩ := other
          simp only [hnormal, Except.map, Except.ok.injEq, Prod.mk.injEq] at hsame
          obtain ⟨rfl, hfuller⟩ := hsame
          -- Marking a page as changed and leaving out its column names commute.
          have howner : (fuller.withOwner (some tid)).normal
              = (page.withOwner (some tid)).normal := by
            show fuller.normal.withOwner (some tid) = page.normal.withOwner (some tid)
            rw [hfuller]
          simp only [howner]
          exact .ok hchange rfl

theorem insertRow_agree (hcoherent : Coherent store changed)
    (hsmall : store.catalog.Small store.disk) (tid : TransactionId) (id : TableId) {row : Row}
    (hvalid : row.Valid) :
    Agree Same ((insertRow tid id row).perform store)
      ((store.plain changed).insertRow tid id row) := by
  rw [perform_insertRow]
  simp only [PlainStore.insertRow, plain_catalog]
  cases htable : store.catalog.table id with
  | error error => exact .error hcoherent
  | ok table =>
      simp only
      split
      · have hroom := room_agree hcoherent hsmall tid htable
        revert hroom
        generalize store.room tid table = real
        generalize (store.plain changed).room tid table = outcome
        intro hroom
        cases hroom with
        | error hafter => exact .error hafter
        | ok hafter hshows =>
            obtain ⟨hframe, rfl⟩ := hshows
            exact insert_agree hafter hframe tid hvalid
      · exact .error hcoherent

/-- A row that is taken off a frame is taken off the page that the frame shows. -/
theorem delete_agree {frame : Frame} {row : Row} (hcoherent : Coherent store changed)
    (hframe : frame ∈ store.pool.resident) (tid : TransactionId) :
    Agree Same
      (match frame.page.delete row with
        | .error error => (.error error, store)
        | .ok page => (.ok (), store.withChange tid frame page))
      (match frame.page.normal.delete row with
        | .error error => (.error error, store.plain changed)
        | .ok fewer =>
          (.ok (), (store.plain changed).put (fewer.withOwner (some tid)).normal)) := by
  have hsame := Page.delete_normal frame.page row
  have hsound := Page.sound_of_normal (hcoherent.sound_normal hframe)
  cases hdelete : frame.page.delete row with
  | error error =>
      rw [hdelete] at hsame
      cases hnormal : frame.page.normal.delete row with
      | ok fewer => simp [hnormal, Except.map] at hsame
      | error other =>
          simp only [hnormal, Except.map, Except.error.injEq] at hsame
          subst hsame
          exact .error hcoherent
  | ok page =>
      rw [hdelete] at hsame
      obtain ⟨place, hdeleted⟩ := Page.deleted_of_delete hdelete
      have hpage := Page.sound_of_delete hsound hdelete
      have hchange := hcoherent.change hframe tid hpage (by rw [hdeleted.result]; rfl)
        (by rw [hdeleted.result]; rfl) (by rw [hdeleted.result]; rfl)
        (by rw [hdeleted.result]; rfl)
      cases hnormal : frame.page.normal.delete row with
      | error error => simp [hnormal, Except.map] at hsame
      | ok fewer =>
          simp only [hnormal, Except.map, Except.ok.injEq] at hsame
          have howner : (fewer.withOwner (some tid)).normal
              = (page.withOwner (some tid)).normal := by
            show fewer.normal.withOwner (some tid) = page.normal.withOwner (some tid)
            rw [hsame]
          simp only [howner]
          exact .ok hchange rfl

theorem deleteRow_agree (hcoherent : Coherent store changed)
    (hsmall : store.catalog.Small store.disk) (tid : TransactionId) (row : Row) :
    Agree Same ((deleteRow tid row).perform store) ((store.plain changed).deleteRow tid row) := by
  rw [perform_deleteRow]
  simp only [PlainStore.deleteRow, plain_catalog]
  cases row.address with
  | none => exact .error hcoherent
  | some place =>
      simp only
      cases store.catalog.table place.page.table with
      | error error => exact .error hcoherent
      | ok table =>
          simp only
          split
          · exact .error hcoherent
          · have hpage := getPage_agree hcoherent tid place.page .readWrite (Or.inl hsmall)
            revert hpage
            generalize (getPage tid place.page .readWrite []).perform store = real
            generalize (store.plain changed).getPage tid place.page .readWrite = outcome
            intro hpage
            cases hpage with
            | error hafter => exact .error hafter
            | ok hafter hshows =>
                obtain ⟨hframe, rfl⟩ := hshows
                exact delete_agree hafter hframe tid

/-! ## Scans -/

theorem entries_rows_normal (page : Page) :
    page.normal.rows.map Row.entry = page.rows.map Row.entry := by
  simp only [Page.rows, Page.normal, List.filterMap_map, List.map_filterMap]
  congr 1
  funext slot
  cases slot with
  | none => rfl
  | some row => rfl

/-- The rows that a scan gives, by address and fields. -/
def entries (rows : List (Except StoreError Row)) :
    List (Except StoreError (Option RecordAddress × List Field)) :=
  rows.map (·.map Row.entry)

/-- A scan whose entries are those of rows has met no error, and has given such rows. -/
theorem eq_map_of_entries {found : List (Except StoreError Row)} {rows : List Row}
    (hfound : entries found = entries (rows.map .ok)) :
    ∃ seen : List Row, found = seen.map .ok ∧ seen.map Row.entry = rows.map Row.entry := by
  induction found generalizing rows with
  | nil =>
      cases rows with
      | nil => exact ⟨[], rfl, rfl⟩
      | cons row rows => simp [entries] at hfound
  | cons first found ih =>
      cases rows with
      | nil => simp [entries] at hfound
      | cons row rows =>
          simp only [entries, List.map_cons, List.cons.injEq] at hfound
          cases first with
          | error error => exact absurd hfound.1 (by simp [Except.map])
          | ok seen =>
              obtain ⟨others, rfl, hothers⟩ := ih hfound.2
              refine ⟨seen :: others, rfl, ?_⟩
              rw [List.map_cons, List.map_cons, hothers, Except.ok.inj hfound.1]

theorem scanPages_agree (hcoherent : Coherent store changed)
    (hsmall : store.catalog.Small store.disk) (tid : TransactionId) (table : Table)
    (count number : Nat) :
    entries (scanPages tid table count number store).1
        = entries (PlainStore.scanPages tid table count number (store.plain changed)).1 ∧
      ∃ still, Coherent (scanPages tid table count number store).2 still ∧
        (PlainStore.scanPages tid table count number (store.plain changed)).2
          = (scanPages tid table count number store).2.plain still := by
  induction count generalizing number store changed with
  | zero => exact ⟨rfl, changed, hcoherent, rfl⟩
  | succ count ih =>
      have hpage := getPage_agree hcoherent tid ⟨table.id, UInt32.ofNat number⟩ .readOnly
        (Or.inl hsmall)
      obtain ⟨pool, hpool⟩ := getPage_withPool tid ⟨table.id, UInt32.ofNat number⟩ .readOnly []
        store
      simp only [scanPages, PlainStore.scanPages]
      revert hpage hpool
      generalize (getPage tid ⟨table.id, UInt32.ofNat number⟩ .readOnly []).perform store = real
      generalize (store.plain changed).getPage tid ⟨table.id, UInt32.ofNat number⟩ .readOnly
        = outcome
      intro hpage hpool
      cases hpage with
      | error hafter => exact ⟨rfl, _, hafter, rfl⟩
      | ok hafter hshows =>
          rename_i frame page after still
          obtain rfl : after = store.withPool pool := hpool
          obtain ⟨hframe, rfl⟩ := hshows
          obtain ⟨hrows, hlast⟩ := ih hafter hsmall (number + 1)
          refine ⟨?_, hlast⟩
          -- The rows may carry other column names, but have the same fields.
          have hown : entries (frame.page.rows.map .ok)
              = entries (frame.page.normal.rows.map .ok) := by
            have h := entries_rows_normal frame.page
            simp only [entries, List.map_map]
            have hok : ∀ rows : List Row,
                rows.map ((fun row : Except StoreError Row => row.map Row.entry) ∘ .ok)
                  = (rows.map Row.entry).map .ok := by
              intro rows
              rw [List.map_map]
              rfl
            rw [hok, hok, h]
          simp only [entries, List.map_append] at hrows hown ⊢
          rw [hrows, hown]

/-! ## Flushing and restoring -/

theorem flushFrame_agree {frame : Frame} (hcoherent : Coherent store changed)
    (hframe : frame ∈ store.pool.resident) (owner : TransactionId) :
    Agree Same ((flushFrame frame owner).perform store)
      (match frame.page.normal.beforeImage with
        | .error error => (.error error, store.plain changed)
        | .ok before =>
          let logged := (store.plain changed).logged owner
            (.update frame.page.address before.bytes frame.page.normal.bytes)
          match logged.catalog.write logged.armed logged.disk frame.page.normal with
          | .error error => (.error error, logged)
          | .ok disk =>
            (.ok (), PlainStore.drop { logged with disk := disk } frame.page.address)) := by
  have hbefore : frame.page.normal.beforeImage = frame.page.beforeImage := rfl
  rw [perform_flushFrame, hbefore, Page.bytes_normal]
  cases frame.page.beforeImage with
  | error error => exact .error hcoherent
  | ok before =>
      simp only [Catalog.write_normal]
      generalize LogRecord.update frame.page.address before.bytes frame.page.bytes = record
      have hlogged := hcoherent.logged owner record
      have hcached : frame ∈ (store.logged owner record).pool.resident := hframe
      have hplain : (store.plain changed).logged owner record
          = (store.logged owner record).plain changed := rfl
      rw [hplain]
      generalize store.logged owner record = logged at hlogged hcached ⊢
      simp only [plain_catalog, plain_armed, plain_disk]
      cases hwrite : logged.catalog.write logged.armed logged.disk frame.page with
      | error error => exact .error hlogged
      | ok disk =>
          have hsound := Page.sound_of_normal (hlogged.sound_normal hcached)
          obtain ⟨former, hformer, hschema, -⟩ := hlogged.filed_of_mem hcached
          have hcatalog : logged.catalog.Sound := hlogged.sound.catalog
          have hfiled := Catalog.filed?_of_write hcatalog hsound hformer hschema hwrite
          -- The page is clean now, and the file has its bytes.
          have hsettled : Coherent { logged with
              disk := disk
              pool := logged.pool.replace frame.stamp frame.page.settled }
              ((logged.plain changed).drop frame.page.address).changed := by
            have hplace : frame.page.settled.address = frame.page.address := rfl
            have hclean : frame.page.settled.owner = none := rfl
            apply hlogged.settle hcached hplace hclean
            · intro other hother
              rw [hfiled, if_neg hother]
            · rw [hplace, hfiled, if_pos rfl]
          exact .ok hsettled rfl

theorem flushPage_agree (hcoherent : Coherent store changed) (address : PageAddress) :
    Agree Same ((flushPage address).perform store) ((store.plain changed).flushPage address) := by
  rw [perform_flushPage]
  unfold PlainStore.flushPage
  cases hfind : store.pool.find? address with
  | none =>
      rw [hcoherent.changed?_of_uncached hfind]
      exact .ok hcoherent rfl
  | some frame =>
      obtain ⟨hframe, rfl⟩ := hcoherent.pool.find?_eq_some_iff.mp hfind
      cases howner : frame.page.owner with
      | none =>
          rw [hcoherent.changed?_of_clean hframe howner]
          simp only [howner]
          exact .ok hcoherent rfl
      | some owner =>
          rw [hcoherent.changed?_of_dirty hframe (by simp [howner])]
          simp only [howner, Page.owner_normal]
          exact flushFrame_agree hcoherent hframe owner

theorem drop_unchanged (hnone : (store.plain changed).changed? address = none) :
    ((store.plain changed).drop address).changed = changed := by
  apply List.filter_eq_self.mpr
  intro page hpage
  have hother := List.find?_eq_none.mp hnone page hpage
  simpa using hother

theorem restorePage_agree (hcoherent : Coherent store changed)
    (hsmall : store.catalog.Small store.disk) (address : PageAddress) :
    Agree Same ((restorePage address).perform store)
      ((store.plain changed).restorePage address) := by
  rw [perform_restorePage]
  unfold PlainStore.restorePage
  cases hfind : store.pool.find? address with
  | none =>
      rw [hcoherent.changed?_of_uncached hfind]
      exact .ok hcoherent rfl
  | some frame =>
      obtain ⟨hframe, rfl⟩ := hcoherent.pool.find?_eq_some_iff.mp hfind
      have hsettle : ∀ page, store.catalog.read store.disk frame.page.address = .ok page →
          Coherent (store.withPool (store.pool.replace frame.stamp page))
            ((store.plain changed).drop frame.page.address).changed := by
        intro page hread
        have hfiled := Catalog.filed?_of_read hread
        obtain ⟨haddress, hclean, hnormal, -⟩ := Catalog.of_filed? hfiled
        apply hcoherent.settle hframe haddress hclean (fun _ _ => rfl)
        rw [haddress, hnormal, hfiled]
      cases howner : frame.page.owner with
      | none =>
          -- A clean page is read again, as the same page.
          have hnone := hcoherent.changed?_of_clean hframe howner
          have hread := Catalog.read_of_filed? hsmall (hcoherent.filed_of_clean hframe howner)
          have hafter := hsettle _ hread
          rw [drop_unchanged hnone] at hafter
          rw [hnone, hread]
          exact .ok hafter rfl
      | some owner =>
          rw [hcoherent.changed?_of_dirty hframe (by simp [howner])]
          simp only [plain_catalog, plain_disk]
          cases hread : store.catalog.read store.disk frame.page.address with
          | error error => exact .error hcoherent
          | ok page => exact .ok (hsettle page hread) rfl

theorem small_flushPage (hcoherent : Coherent store changed)
    (hsmall : store.catalog.Small store.disk) (address : PageAddress) :
    ((flushPage address).perform store).2.catalog.Small
      ((flushPage address).perform store).2.disk := by
  rw [perform_flushPage]
  cases hfind : store.pool.find? address with
  | none => exact hsmall
  | some frame =>
      obtain ⟨hframe, rfl⟩ := hcoherent.pool.find?_eq_some_iff.mp hfind
      cases howner : frame.page.owner with
      | none =>
          simp only [howner]
          exact hsmall
      | some owner =>
          simp only [howner]
          rw [perform_flushFrame]
          cases frame.page.beforeImage with
          | error error => exact hsmall
          | ok before =>
              simp only
              generalize LogRecord.update frame.page.address before.bytes frame.page.bytes = record
              have hapart : store.catalog.Apart store.log.location := hcoherent.sound.apart
              have hlogged : (store.logged owner record).catalog.Small
                  (store.logged owner record).disk :=
                Catalog.small_logged hapart owner record hsmall
              obtain ⟨former, hformer, -⟩ :=
                (hcoherent.logged owner record).filed_of_mem hframe
              cases hwrite : (store.logged owner record).catalog.write
                  (store.logged owner record).armed (store.logged owner record).disk frame.page with
              | error error => exact hlogged
              | ok disk => exact Catalog.small_of_write hformer hwrite hlogged

theorem small_restorePage (hsmall : store.catalog.Small store.disk) (address : PageAddress) :
    ((restorePage address).perform store).2.catalog.Small
      ((restorePage address).perform store).2.disk := by
  rw [perform_restorePage]
  split
  · exact hsmall
  · split
    · exact hsmall
    · exact hsmall

/-- Work that agrees page by page agrees over a list of pages. -/
theorem each_agree {work : PageAddress → Action Unit}
    {plainWork : PlainStore → PageAddress → Outcome Unit}
    (hwork : ∀ (store : Store) (changed : List Page) (address : PageAddress),
      Coherent store changed → store.catalog.Small store.disk →
        Agree Same ((work address).perform store) (plainWork (store.plain changed) address) ∧
        ((work address).perform store).2.catalog.Small ((work address).perform store).2.disk)
    (addresses : List PageAddress) (hcoherent : Coherent store changed)
    (hsmall : store.catalog.Small store.disk) :
    Agree Same ((addresses.forM work).perform store)
        (PlainStore.each plainWork addresses (store.plain changed)) ∧
      ((addresses.forM work).perform store).2.catalog.Small
        ((addresses.forM work).perform store).2.disk := by
  induction addresses generalizing store changed with
  | nil => exact ⟨.ok hcoherent rfl, hsmall⟩
  | cons address addresses ih =>
      rw [perform_forM_cons]
      unfold PlainStore.each
      have hfirst := hwork store changed address hcoherent hsmall
      revert hfirst
      generalize (work address).perform store = real
      generalize plainWork (store.plain changed) address = outcome
      rintro ⟨hfirst, hkept⟩
      cases hfirst with
      | error hafter => exact ⟨.error hafter, hkept⟩
      | ok hafter _ => exact ih hafter hkept

theorem flushEach_agree (addresses : List PageAddress) (hcoherent : Coherent store changed)
    (hsmall : store.catalog.Small store.disk) :
    Agree Same ((addresses.forM flushPage).perform store)
        (PlainStore.each PlainStore.flushPage addresses (store.plain changed)) ∧
      ((addresses.forM flushPage).perform store).2.catalog.Small
        ((addresses.forM flushPage).perform store).2.disk :=
  each_agree (fun _ _ address hcoherent hsmall =>
    ⟨flushPage_agree hcoherent address, small_flushPage hcoherent hsmall address⟩)
    addresses hcoherent hsmall

theorem restoreEach_agree (addresses : List PageAddress) (hcoherent : Coherent store changed)
    (hsmall : store.catalog.Small store.disk) :
    Agree Same ((addresses.forM restorePage).perform store)
        (PlainStore.each PlainStore.restorePage addresses (store.plain changed)) ∧
      ((addresses.forM restorePage).perform store).2.catalog.Small
        ((addresses.forM restorePage).perform store).2.disk :=
  each_agree (fun _ _ address hcoherent hsmall =>
    ⟨restorePage_agree hcoherent hsmall address, small_restorePage hsmall address⟩)
    addresses hcoherent hsmall

/-! ## Transactions -/

theorem complete_agree (hcoherent : Coherent store changed)
    (hsmall : store.catalog.Small store.disk) (tid : TransactionId) (commit : Bool) :
    Agree Same ((complete tid commit).perform store) ((store.plain changed).complete tid commit) ∧
      ((complete tid commit).perform store).2.catalog.Small
        ((complete tid commit).perform store).2.disk := by
  have hwalk : Agree Same
        (((store.pool.dirtiedBy tid).forM fun address =>
          if commit then flushPage address else restorePage address).perform store)
        (PlainStore.each (if commit then PlainStore.flushPage else PlainStore.restorePage)
          (store.pool.dirtiedBy tid) (store.plain changed)) ∧
      (((store.pool.dirtiedBy tid).forM fun address =>
          if commit then flushPage address else restorePage address).perform store).2.catalog.Small
        (((store.pool.dirtiedBy tid).forM fun address =>
          if commit then flushPage address else restorePage address).perform store).2.disk := by
    cases commit with
    -- Both run over the same pages in the same order.
    | true => exact flushEach_agree _ hcoherent hsmall
    | false => exact restoreEach_agree _ hcoherent hsmall
  rw [perform_complete]
  simp only [PlainStore.complete, hcoherent.dirtiedBy_eq]
  revert hwalk
  generalize (List.forM _ _ : Action Unit).perform store = real
  generalize PlainStore.each _ (store.pool.dirtiedBy tid) (store.plain changed) = outcome
  rintro ⟨hwalk, hkept⟩
  cases hwalk with
  | error hafter => exact ⟨.error hafter, hkept⟩
  | ok hafter _ => exact ⟨.ok (hafter.withLocks _) rfl, hkept⟩

theorem finish_agree (hcoherent : Coherent store changed)
    (hsmall : store.catalog.Small store.disk) (tid : TransactionId) (commit : Bool) :
    Agree Same ((finish tid commit).perform store) ((store.plain changed).finish tid commit) ∧
      ((finish tid commit).perform store).2.catalog.Small
        ((finish tid commit).perform store).2.disk := by
  have hcomplete := complete_agree hcoherent hsmall tid commit
  rw [perform_finish]
  unfold PlainStore.finish
  revert hcomplete
  generalize (complete tid commit).perform store = real
  generalize (store.plain changed).complete tid commit = outcome
  rintro ⟨hcomplete, hkept⟩
  cases hcomplete with
  | error hafter => exact ⟨.error hafter, hkept⟩
  | ok hafter _ =>
      exact ⟨.ok (hafter.logged tid _) rfl, Catalog.small_logged hafter.sound.apart tid _ hkept⟩

/-- An end that has failed is abandoned, and this may fail too. -/
theorem abandon_agree (hcoherent : Coherent store changed)
    (hsmall : store.catalog.Small store.disk) (tid : TransactionId) (error : StoreError) :
    Agree (Same (α := Unit)) (.error error, ((finish tid false).perform store).2)
      (.error error, ((store.plain changed).finish tid false).2) := by
  have habandon := (finish_agree hcoherent hsmall tid false).1
  revert habandon
  generalize (finish tid false).perform store = real
  generalize (store.plain changed).finish tid false = outcome
  intro habandon
  cases habandon with
  | ok hlast _ => exact .error hlast
  | error hlast => exact .error hlast

theorem endWith_agree (hcoherent : Coherent store changed)
    (hsmall : store.catalog.Small store.disk) (tid : TransactionId) (commit : Bool) :
    Agree Same ((endWith tid commit).perform store) ((store.plain changed).endWith tid commit) := by
  have hfinish := finish_agree hcoherent hsmall tid commit
  rw [perform_endWith]
  unfold PlainStore.endWith
  revert hfinish
  generalize (finish tid commit).perform store = real
  generalize (store.plain changed).finish tid commit = outcome
  rintro ⟨hfinish, hkept⟩
  cases hfinish with
  | ok hafter _ => exact .ok hafter rfl
  | error hafter => exact abandon_agree hafter hkept tid _

theorem flushAll_agree (hcoherent : Coherent store changed)
    (hsmall : store.catalog.Small store.disk) :
    Agree Same (flushAll.perform store)
      (PlainStore.each PlainStore.flushPage (store.plain changed).dirtied
        (store.plain changed)) := by
  have hkeep : ∀ page ∈ (store.plain changed).changed,
      ((store.plain changed).changed? page.address).isSome = true := by
    intro page hpage
    rw [hcoherent.changed?_eq_some_iff.mpr ⟨hpage, rfl⟩]
    rfl
  rw [hcoherent.dirtied_eq, PlainStore.each_flushPage_filter _ hkeep]
  exact (flushEach_agree _ hcoherent hsmall).1

/-! ## Steps -/

end Store

/-- The operation leaves the catalog alone, a row that it inserts was built for its schema, and no
page is being changed while it gets one. -/
def Operation.Fixed : Operation → Prop
  | .getPage _ _ _ latched => latched = []
  | .insert _ _ row => row.Valid
  | .openTable _ _ _ _ _ => False
  | .loadSchema _ => False
  | .clearCatalog => False
  | _ => True

/-- The operation makes a page leave the cache. -/
def Operation.isEvict : Operation → Bool
  | .evict _ => true
  | _ => false

/-- What a caller sees of a step. -/
def Store.answer (store : Store) (operation : Operation) : Except StoreError Answer :=
  (store.step operation).1.map Reply.answer

namespace Store

variable {store : Store} {changed : List Page}

/-- A step and its plain counterpart: what comes of an action comes of the operation. -/
theorem step_of_agree {α β : Type} {related : α → Store → β → Prop} {action : Action α}
    {outcome : PlainStore.Outcome β} {operation : Operation} {reply : α → Reply}
    {answer : β → Answer} (hagree : Agree related (action.perform store) outcome)
    (hanswer : ∀ a after b, related a after b → (reply a).answer = answer b)
    (hreal : store.step operation = ((action.perform store).1.map reply, (action.perform store).2))
    (hplain : (store.plain changed).step operation = PlainStore.Outcome.answering outcome answer) :
    store.answer operation = ((store.plain changed).step operation).1 ∧
      ∃ still, Coherent (store.step operation).2 still ∧
        ((store.plain changed).step operation).2 = (store.step operation).2.plain still := by
  rw [Store.answer, hreal, hplain]
  revert hagree
  generalize action.perform store = real
  intro hagree
  cases hagree with
  | ok hafter hrelated =>
      refine ⟨?_, _, hafter, rfl⟩
      simp only [Except.map, PlainStore.Outcome.answering, hanswer _ _ _ hrelated]
  | error hafter => exact ⟨rfl, _, hafter, rfl⟩

theorem scan_agree (hcoherent : Coherent store changed) (hsmall : store.catalog.Small store.disk)
    (tid : TransactionId) (id : TableId) :
    store.answer (.scan tid id) = ((store.plain changed).step (.scan tid id)).1 ∧
      ∃ still, Coherent (store.step (.scan tid id)).2 still ∧
        ((store.plain changed).step (.scan tid id)).2
          = (store.step (.scan tid id)).2.plain still := by
  have hstep : store.step (.scan tid id)
      = (((scan tid id).perform store).1.map Reply.found, ((scan tid id).perform store).2) :=
    Action.perform_map _ _ _
  rw [Store.answer, hstep, perform_scan]
  simp only [PlainStore.step, plain_catalog]
  cases store.catalog.table id with
  | error error => exact ⟨rfl, changed, hcoherent, rfl⟩
  | ok table =>
      obtain ⟨hrows, still, hafter, hplain⟩ := scanPages_agree hcoherent hsmall tid table
        (store.pageCount table).toNat 0
      refine ⟨?_, still, hafter, hplain⟩
      show Except.ok (Answer.found (entries _)) = Except.ok (Answer.found (entries _))
      rw [hrows]
      rfl

/-- One step of a coherent store is the step of the plain store: it answers the same, unless it is
an eviction, and leaves coherent stores behind. -/
theorem step_agree (hcoherent : Coherent store changed) (hsmall : store.catalog.Small store.disk)
    {operation : Operation} (hfixed : operation.Fixed) :
    (operation.isEvict = false →
        store.answer operation = ((store.plain changed).step operation).1) ∧
      ∃ still, Coherent (store.step operation).2 still ∧
        ((store.plain changed).step operation).2 = (store.step operation).2.plain still := by
  have hall : ∀ {answers other : Prop}, answers ∧ other →
      (operation.isEvict = false → answers) ∧ other := fun h => ⟨fun _ => h.1, h.2⟩
  cases operation with
  | begin => exact hall ⟨rfl, changed, hcoherent.congr rfl rfl rfl rfl, rfl⟩
  | getPage tid address access latched =>
      obtain rfl : latched = [] := hfixed
      exact hall (step_of_agree (getPage_agree hcoherent tid address access (Or.inl hsmall))
        (fun _ _ _ hshows => by rw [← hshows.2]; rfl) (Action.perform_map _ _ _) rfl)
  | insert tid id row =>
      exact hall (step_of_agree (insertRow_agree hcoherent hsmall tid id hfixed)
        (fun _ _ _ hsame => by rw [hsame]; rfl) (Action.perform_map _ _ _) rfl)
  | delete tid row =>
      exact hall (step_of_agree (deleteRow_agree hcoherent hsmall tid row)
        (fun _ _ _ _ => rfl) (Action.perform_seqRight_pure _ _ _) rfl)
  | scan tid id => exact hall (scan_agree hcoherent hsmall tid id)
  | commit tid =>
      exact hall (step_of_agree (endWith_agree hcoherent hsmall tid true)
        (fun _ _ _ _ => rfl) (Action.perform_seqRight_pure _ _ _) rfl)
  | abort tid =>
      exact hall (step_of_agree (endWith_agree hcoherent hsmall tid false)
        (fun _ _ _ _ => rfl) (Action.perform_seqRight_pure _ _ _) rfl)
  | abandon tid =>
      have hfinish := (finish_agree hcoherent hsmall tid false).1
      have hstep : store.step (.abandon tid)
          = (.ok .done, ((finish tid false).perform store).2) := by
        show Action.perform (abandon tid *> pure Reply.done) store = _
        rw [Action.perform_seqRight_pure, perform_abandon]
        rfl
      have hplain : (store.plain changed).step (.abandon tid)
          = (.ok .done, ((store.plain changed).finish tid false).2) := rfl
      refine hall ?_
      rw [Store.answer, hstep, hplain]
      revert hfinish
      generalize (finish tid false).perform store = real
      generalize (store.plain changed).finish tid false = outcome
      intro hfinish
      cases hfinish with
      | ok hafter _ => exact ⟨rfl, _, hafter, rfl⟩
      | error hafter => exact ⟨rfl, _, hafter, rfl⟩
  | complete tid commit =>
      exact hall (step_of_agree (complete_agree hcoherent hsmall tid commit).1
        (fun _ _ _ _ => rfl) (Action.perform_seqRight_pure _ _ _) rfl)
  | release tid address =>
      exact hall ⟨rfl, changed, hcoherent.withLocks _, rfl⟩
  | evict latched =>
      refine ⟨fun hevict => absurd hevict (by simp [Operation.isEvict]), ?_⟩
      have hstep : (store.step (.evict latched)).2 = ((evictPage latched).perform store).2 := by
        show (Action.perform (evictPage latched *> pure Reply.done) store).2 = _
        rw [Action.perform_seqRight_pure]
      rw [hstep, perform_evictPage]
      -- What an eviction answers depends on the cache; what it leaves behind does not.
      rcases store.pool.evict_cases latched with ⟨victim, hmem, hclean, hevict⟩ | ⟨error, hevict, -⟩
      · rw [hevict]
        have hroom := Pool.roomier_depart hcoherent.pool hmem hclean
        exact ⟨changed, hcoherent.roomier hroom,
          (plain_withPool hroom.settings hroom.locks changed).symm⟩
      · rw [hevict]
        exact ⟨changed, hcoherent, rfl⟩
  | discard address => exact hall ⟨rfl, _, hcoherent.discard address, rfl⟩
  | flushPage address =>
      exact hall (step_of_agree (flushPage_agree hcoherent address)
        (fun _ _ _ _ => rfl) (Action.perform_seqRight_pure _ _ _) rfl)
  | flushPagesOf tid =>
      have hreal : Agree Same ((flushPagesOf tid).perform store)
          (PlainStore.each PlainStore.flushPage ((store.plain changed).dirtiedBy tid)
            (store.plain changed)) := by
        rw [hcoherent.dirtiedBy_eq]
        exact (flushEach_agree _ hcoherent hsmall).1
      exact hall (step_of_agree hreal (fun _ _ _ _ => rfl) (Action.perform_seqRight_pure _ _ _) rfl)
  | flushAll =>
      exact hall (step_of_agree (flushAll_agree hcoherent hsmall)
        (fun _ _ _ _ => rfl) (Action.perform_seqRight_pure _ _ _) rfl)
  | openTable path name schema primaryKey pageSize => exact hfixed.elim
  | loadSchema path => exact hfixed.elim
  | clearCatalog => exact hfixed.elim
  | enable site => exact hall ⟨rfl, changed, hcoherent.congr rfl rfl rfl rfl, rfl⟩
  | disable site => exact hall ⟨rfl, changed, hcoherent.congr rfl rfl rfl rfl, rfl⟩
  | disarm => exact hall ⟨rfl, changed, hcoherent.congr rfl rfl rfl rfl, rfl⟩

end Store

end HeapStore
