import HeapStore.Proofs.Perform

/-!
# What every store satisfies

`Store.Sound` holds of a store whose cache and catalog are sound.  Each operation keeps it, whether
it succeeds or fails (`sound_step`), and a store that was just opened satisfies it
(`fresh_of_openAt`); so it holds in every state of every run (`Reached.sound`).
-/

namespace HeapStore

namespace Store

open HeapStore.Action

/-- What holds of every store. -/
structure Sound (store : Store) : Prop where
  pool : store.pool.Sound
  catalog : store.catalog.Sound

variable {store : Store} {tid : TransactionId} {address : PageAddress}

theorem sound_withLocks (hsound : store.Sound) (locks : LockTable) :
    (store.withLocks locks).Sound :=
  ⟨⟨hsound.pool.stamps, hsound.pool.addresses, hsound.pool.given, hsound.pool.room⟩,
    hsound.catalog⟩

theorem sound_withPool (hsound : store.Sound) {pool : Pool} (hpool : pool.Sound) :
    (store.withPool pool).Sound :=
  ⟨hpool, hsound.catalog⟩

/-! ## Pages -/

/-- A page that was read has the address that was asked for. -/
theorem address_of_read {catalog : Catalog} {disk : Disk} {page : Page}
    (hread : catalog.read disk address = .ok page) : page.address = address := by
  obtain ⟨table, -, hpage⟩ := Catalog.table_of_read hread
  obtain ⟨hid, hfiled⟩ := Table.filed?_of_readPage hpage
  obtain ⟨-, hreadFrom, -⟩ := Table.of_filed? hfiled
  rw [hreadFrom.address, ← hid]

theorem sound_fetch (hsound : store.Sound) (address : PageAddress) (latched : List Nat) :
    (store.fetch address latched).2.Sound ∧
      ∀ frame, (store.fetch address latched).1 = .ok frame →
        frame ∈ (store.fetch address latched).2.pool.resident := by
  unfold fetch
  split
  · rename_i frame hfind
    refine ⟨hsound, ?_⟩
    intro other hother
    obtain rfl := Except.ok.inj hother
    exact (hsound.pool.find?_eq_some_iff.mp hfind).1
  -- Not cached: room is made, then the page is read and loaded.
  · rename_i hfind
    split
    · exact ⟨hsound, by simp⟩
    · rename_i pool hmade
      have hroom := Pool.roomier_of_makeRoom hsound.pool hmade
      split
      · exact ⟨sound_withPool hsound hroom.sound, by simp⟩
      · rename_i page hread
        have hnew : page.address ∉ pool.cached := by
          rw [address_of_read hread]
          exact hroom.not_mem_cached hfind
        refine ⟨sound_withPool hsound (Pool.sound_load hroom.sound hnew hroom.room), ?_⟩
        intro frame hframe
        obtain rfl := Except.ok.inj hframe
        exact List.mem_append_right _ (List.mem_singleton_self _)

theorem sound_getPage (hsound : store.Sound) (tid : TransactionId) (address : PageAddress)
    (access : Access) (latched : List Nat) :
    ((getPage tid address access latched).perform store).2.Sound ∧
      ∀ frame, ((getPage tid address access latched).perform store).1 = .ok frame →
        frame ∈ ((getPage tid address access latched).perform store).2.pool.resident := by
  rw [perform_getPage]
  split
  · exact ⟨hsound, by simp⟩
  · exact sound_fetch (sound_withLocks hsound _) address latched

theorem sound_evictPage (hsound : store.Sound) (latched : List Nat) :
    ((evictPage latched).perform store).2.Sound := by
  rw [perform_evictPage]
  rcases store.pool.evict_cases latched with ⟨victim, -, -, hevict⟩ | ⟨error, hevict, -⟩
  · rw [hevict]
    exact sound_withPool hsound (Pool.sound_depart hsound.pool _)
  · rw [hevict]
    exact hsound

theorem sound_flushPage (hsound : store.Sound) (address : PageAddress) :
    ((flushPage address).perform store).2.Sound := by
  rcases flushPage_cases address store with ⟨result, hflush, -⟩ | ⟨error, owner, record, hflush⟩ |
    ⟨frame, owner, record, disk, hfind, -, -, hflush⟩
  · rw [hflush]
    exact hsound
  · rw [hflush]
    exact ⟨hsound.pool, hsound.catalog⟩
  · have hframe := (hsound.pool.find?_eq_some_iff.mp hfind).1
    rw [hflush]
    exact ⟨Pool.sound_replace hsound.pool hframe rfl, hsound.catalog⟩

theorem sound_restorePage (hsound : store.Sound) (address : PageAddress) :
    ((restorePage address).perform store).2.Sound := by
  rw [perform_restorePage]
  split
  · exact hsound
  · rename_i frame hfind
    split
    · exact hsound
    · rename_i page hread
      obtain ⟨hmem, haddress⟩ := hsound.pool.find?_eq_some_iff.mp hfind
      apply sound_withPool hsound
      exact Pool.sound_replace hsound.pool hmem ((address_of_read hread).trans haddress.symm)

/-- What each page keeps, a walk over pages keeps. -/
theorem sound_forM {work : PageAddress → Action Unit}
    (hwork : ∀ store : Store, store.Sound → ∀ address, ((work address).perform store).2.Sound)
    (addresses : List PageAddress) (hsound : store.Sound) :
    ((addresses.forM work).perform store).2.Sound :=
  related_forM (fun before after => before.Sound → after.Sound) (fun _ => id)
    (fun hfirst hsecond => hsecond ∘ hfirst)
    (fun address _ store hstore => hwork store hstore address) store hsound

/-! ## Rows -/

theorem sound_withChange (hsound : store.Sound) {frame : Frame}
    (hmem : frame ∈ store.pool.resident) {page : Page}
    (haddress : page.address = frame.page.address) : (store.withChange tid frame page).Sound :=
  sound_withPool hsound (Pool.sound_replace hsound.pool hmem haddress)

theorem sound_seek (tid : TransactionId) (table : Table) (count number : Nat)
    (hsound : store.Sound) :
    (seek tid table count number store).2.Sound ∧
      ∀ frame, (seek tid table count number store).1 = .ok (some frame) →
        frame ∈ (seek tid table count number store).2.pool.resident := by
  induction count generalizing number store with
  | zero => exact ⟨hsound, by simp [seek]⟩
  | succ count ih =>
      have hpage := sound_getPage hsound tid ⟨table.id, UInt32.ofNat number⟩ .readWrite []
      simp only [seek]
      revert hpage
      rcases (getPage tid ⟨table.id, UInt32.ofNat number⟩ .readWrite []).perform store
        with ⟨result, after⟩
      rintro ⟨hafter, hcached⟩
      cases result with
      | error error => exact ⟨hafter, by simp⟩
      | ok frame =>
          simp only
          split
          · refine ⟨hafter, ?_⟩
            intro other hother
            obtain rfl := Option.some.inj (Except.ok.inj hother)
            exact hcached frame rfl
          · apply ih
            split
            · exact hafter
            · exact sound_withLocks hafter _

theorem sound_room (tid : TransactionId) (table : Table) (hsound : store.Sound) :
    (store.room tid table).2.Sound ∧
      ∀ frame, (store.room tid table).1 = .ok frame →
        frame ∈ (store.room tid table).2.pool.resident := by
  have hseek := sound_seek tid table (store.pageCount table).toNat 0 hsound
  unfold room
  revert hseek
  rcases seek tid table (store.pageCount table).toNat 0 store with ⟨result, after⟩
  rintro ⟨hafter, hcached⟩
  cases result with
  | error error => exact ⟨hafter, by simp⟩
  | ok found =>
      cases found with
      | some frame =>
          refine ⟨hafter, ?_⟩
          intro other hother
          obtain rfl := Except.ok.inj hother
          exact hcached frame rfl
      | none =>
          simp only [perform_growTable]
          cases table.appendPage after.armed (after.disk.content table.location) with
          | error error => exact ⟨hafter, by simp⟩
          | ok grown =>
              obtain ⟨address, content⟩ := grown
              -- A table that grows touches neither cache nor catalog.
              have hgrown : Sound { after with disk := after.disk.write table.location content } :=
                ⟨hafter.pool, hafter.catalog⟩
              exact sound_getPage hgrown tid address .readWrite []

theorem sound_insertRow (hsound : store.Sound) (tid : TransactionId) (id : TableId) (row : Row) :
    ((insertRow tid id row).perform store).2.Sound := by
  rw [perform_insertRow]
  split
  · exact hsound
  · rename_i table _
    split
    · have hroom := sound_room tid table hsound
      revert hroom
      rcases store.room tid table with ⟨result, after⟩
      rintro ⟨hafter, hcached⟩
      cases result with
      | error error => exact hafter
      | ok frame =>
          simp only
          split
          · exact hafter
          · rename_i placed page hinsert
            -- The page keeps its address, so the frame may take it.
            obtain ⟨place, -, hinserted⟩ := Page.inserted_of_insert hinsert
            apply sound_withChange hafter (hcached frame rfl)
            rw [hinserted.result]
            rfl
    · exact hsound

theorem sound_deleteRow (hsound : store.Sound) (tid : TransactionId) (row : Row) :
    ((deleteRow tid row).perform store).2.Sound := by
  rw [perform_deleteRow]
  split
  · exact hsound
  · rename_i place _
    split
    · exact hsound
    · split
      · exact hsound
      · have hpage := sound_getPage hsound tid place.page .readWrite []
        revert hpage
        rcases (getPage tid place.page .readWrite []).perform store with ⟨result, after⟩
        rintro ⟨hafter, hcached⟩
        cases result with
        | error error => exact hafter
        | ok frame =>
            simp only
            split
            · exact hafter
            · rename_i page hdelete
              obtain ⟨place', hdeleted⟩ := Page.deleted_of_delete hdelete
              apply sound_withChange hafter (hcached frame rfl)
              rw [hdeleted.result]
              rfl

theorem sound_scanPages (tid : TransactionId) (table : Table) (count number : Nat)
    (hsound : store.Sound) : (scanPages tid table count number store).2.Sound :=
  related_scanPages (fun before after => before.Sound → after.Sound) (fun _ => id)
    (fun hfirst hsecond => hsecond ∘ hfirst)
    (fun address _ hstore => (sound_getPage hstore tid address .readOnly []).1)
    table count number store hsound

/-! ## Transactions -/

theorem sound_complete (hsound : store.Sound) (tid : TransactionId) (commit : Bool) :
    ((complete tid commit).perform store).2.Sound :=
  related_complete (fun before after => before.Sound → after.Sound) (fun _ => id)
    (fun hfirst hsecond => hsecond ∘ hfirst)
    (fun address _ hstore => sound_flushPage hstore address)
    (fun address _ hstore => sound_restorePage hstore address)
    (fun locks _ hstore => sound_withLocks hstore locks) commit store hsound

theorem sound_finish (hsound : store.Sound) (tid : TransactionId) (commit : Bool) :
    ((finish tid commit).perform store).2.Sound :=
  related_finish (fun before after => before.Sound → after.Sound) (fun _ => id)
    (fun hfirst hsecond => hsecond ∘ hfirst)
    (fun address _ hstore => sound_flushPage hstore address)
    (fun address _ hstore => sound_restorePage hstore address)
    (fun locks _ hstore => sound_withLocks hstore locks)
    (fun _ _ _ hstore => ⟨hstore.pool, hstore.catalog⟩) commit store hsound

theorem sound_endWith (hsound : store.Sound) (tid : TransactionId) (commit : Bool) :
    ((endWith tid commit).perform store).2.Sound :=
  related_endWith (fun before after => before.Sound → after.Sound) (fun _ => id)
    (fun hfirst hsecond => hsecond ∘ hfirst)
    (fun address _ hstore => sound_flushPage hstore address)
    (fun address _ hstore => sound_restorePage hstore address)
    (fun locks _ hstore => sound_withLocks hstore locks)
    (fun _ _ _ hstore => ⟨hstore.pool, hstore.catalog⟩) commit store hsound

/-! ## Tables -/

theorem sound_openTable (hsound : store.Sound) (path name : String) (schema : Schema)
    (primaryKey : Option String) (pageSize : Nat) :
    ((openTable path name schema primaryKey pageSize).perform store).2.Sound := by
  rw [perform_openTable]
  split
  · exact ⟨hsound.pool, hsound.catalog⟩
  · rename_i table disk hopen
    obtain ⟨hid, hlocation⟩ := Table.of_openFile hopen
    split
    · exact ⟨hsound.pool, hsound.catalog⟩
    · rename_i catalog hadd
      exact ⟨hsound.pool, Catalog.sound_add hsound.catalog hid hlocation hadd⟩

theorem sound_loadSchema (hsound : store.Sound) (path : String) :
    ((loadSchema path).perform store).2.Sound :=
  related_loadSchema (fun before after => before.Sound → after.Sound) (fun _ => id)
    (fun hfirst hsecond => hsecond ∘ hfirst)
    (fun path name schema primaryKey pageSize _ hstore =>
      sound_openTable hstore path name schema primaryKey pageSize) path store hsound

/-! ## Runs -/

/-- Every operation keeps the store sound. -/
theorem sound_step (hsound : store.Sound) (operation : Operation) :
    (store.step operation).2.Sound := by
  -- What an action gives back does not matter for the store after it.
  have hdone : ∀ action : Action Unit, (action.perform store).2.Sound →
      ((action *> pure Reply.done).perform store).2.Sound := by
    intro action haction
    rw [perform_seqRight_pure]
    exact haction
  have hmap : ∀ {α : Type} (f : α → Reply) (action : Action α), (action.perform store).2.Sound →
      ((f <$> action).perform store).2.Sound := by
    intro α f action haction
    rw [perform_map]
    exact haction
  have hflush := fun addresses : List PageAddress =>
    sound_forM (fun _ hstore address => sound_flushPage hstore address) addresses hsound
  cases operation with
  | begin => exact hmap _ _ ⟨hsound.pool, hsound.catalog⟩
  | getPage tid address access latched =>
      exact hmap _ _ (sound_getPage hsound tid address access latched).1
  | insert tid table row => exact hmap _ _ (sound_insertRow hsound tid table row)
  | delete tid row => exact hdone _ (sound_deleteRow hsound tid row)
  | scan tid table =>
      apply hmap
      rw [perform_scan]
      split
      · exact hsound
      · exact sound_scanPages tid _ _ _ hsound
  | commit tid => exact hdone _ (sound_endWith hsound tid true)
  | abort tid => exact hdone _ (sound_endWith hsound tid false)
  | abandon tid =>
      apply hdone
      rw [perform_abandon]
      exact sound_finish hsound tid false
  | complete tid committed => exact hdone _ (sound_complete hsound tid committed)
  | release tid address => exact hmap _ _ (sound_withLocks hsound _)
  | evict latched => exact hdone _ (sound_evictPage hsound latched)
  | discard address => exact hdone _ (sound_withPool hsound (Pool.sound_depart hsound.pool _))
  | flushPage address => exact hdone _ (sound_flushPage hsound address)
  | flushPagesOf tid => exact hdone _ (hflush _)
  | flushAll => exact hdone _ (hflush _)
  | openTable path name schema primaryKey pageSize =>
      exact hmap _ _ (sound_openTable hsound path name schema primaryKey pageSize)
  | loadSchema path => exact hmap _ _ (sound_loadSchema hsound path)
  | clearCatalog => exact hdone _ ⟨hsound.pool, Catalog.sound_clear hsound.catalog⟩
  | enable site => exact hdone _ ⟨hsound.pool, hsound.catalog⟩
  | disable site => exact hdone _ ⟨hsound.pool, hsound.catalog⟩
  | disarm => exact hdone _ ⟨hsound.pool, hsound.catalog⟩

/-! ## Opening -/

/-- The store has just been opened: no page is cached, none is locked, no table is registered. -/
structure Fresh (store : Store) : Prop where
  resident : store.pool.resident = []
  locks : store.pool.locks = LockTable.empty
  catalog : store.catalog.Sound

theorem Fresh.sound (hfresh : store.Fresh) : store.Sound := by
  refine ⟨⟨?_, ?_, ?_, ?_⟩, hfresh.catalog⟩
  · simp [hfresh.resident]
  · simp [Pool.cached, hfresh.resident]
  · simp [hfresh.resident]
  · simp [hfresh.resident]

/-- A database that opens has read its log and nothing else. -/
theorem of_openAt {disk made : Disk} {armed : Failpoints} {logPath : String}
    {settings : Settings} (hopen : openAt disk armed logPath settings = (.ok store, made)) :
    ∃ log, Log.openFile disk logPath = (.ok log, made) ∧ 0 < settings.pageSize ∧
      settings.pageSize ≤ maxPageSize ∧ store = {
        disk := made
        armed := armed
        log := log
        catalog := .empty settings.pageSize
        pool := ⟨settings, [], [], 0, .empty⟩
        nextTransaction := match log.recovered with
          | none => 1
          | some largest => largest + 1 } := by
  unfold openAt at hopen
  split at hopen
  · exact absurd (Prod.mk.inj hopen).1 (by simp)
  · rename_i log opened hlog
    cases hpool : Pool.create settings (Catalog.empty settings.pageSize) with
    | error error =>
        simp only [hpool] at hopen
        exact absurd (Prod.mk.inj hopen).1 (by simp)
    | ok pool =>
        obtain ⟨hpos, hsize, rfl⟩ := Pool.of_create hpool
        simp only [hpool] at hopen
        obtain ⟨hstore, rfl⟩ := Prod.mk.inj hopen
        exact ⟨log, hlog, hpos, hsize, (Except.ok.inj hstore).symm⟩

theorem fresh_of_openAt {disk made : Disk} {armed : Failpoints} {logPath : String}
    {settings : Settings} (hopen : openAt disk armed logPath settings = (.ok store, made)) :
    store.Fresh := by
  obtain ⟨log, -, hpos, -, rfl⟩ := of_openAt hopen
  exact ⟨rfl, rfl, Catalog.sound_empty hpos⟩

theorem pool_openTable (path name : String) (schema : Schema) (primaryKey : Option String)
    (pageSize : Nat) (store : Store) :
    ((openTable path name schema primaryKey pageSize).perform store).2.pool = store.pool := by
  rw [perform_openTable]
  split
  · rfl
  · split
    · rfl
    · rfl

end Store

/-- The operation is about the catalog. -/
def Operation.registers : Operation → Bool
  | .openTable _ _ _ _ _ => true
  | .loadSchema _ => true
  | .clearCatalog => true
  | _ => false

namespace Store

/-- A store that was opened and in which tables were registered, before any transaction. -/
inductive Opened : Store → Prop
  | opened {disk made : Disk} {armed : Failpoints} {logPath : String} {settings : Settings}
      {store : Store} (hopen : openAt disk armed logPath settings = (.ok store, made)) :
      Opened store
  | registered {store : Store} (hstore : Opened store) {operation : Operation}
      (hregisters : operation.registers = true) : Opened (store.step operation).2

/-- A store that was opened and performed some operations. -/
inductive Reached : Store → Prop
  | opened {disk made : Disk} {armed : Failpoints} {logPath : String} {settings : Settings}
      {store : Store} (hopen : openAt disk armed logPath settings = (.ok store, made)) :
      Reached store
  | stepped {store : Store} (hstore : Reached store) (operation : Operation) :
      Reached (store.step operation).2

theorem Reached.sound {store : Store} (hreached : Reached store) : store.Sound := by
  induction hreached with
  | opened hopen => exact (fresh_of_openAt hopen).sound
  | stepped _ operation ih => exact sound_step ih operation

theorem Reached.run {store : Store} (hreached : Reached store) (operations : List Operation) :
    Reached (store.run operations) := by
  induction operations generalizing store with
  | nil => exact hreached
  | cons operation operations ih => exact ih (.stepped hreached operation)

theorem Opened.reached {store : Store} (hopened : Opened store) : Reached store := by
  induction hopened with
  | opened hopen => exact .opened hopen
  | registered _ _ ih => exact .stepped ih _

/-- What every opening of a table keeps, every operation about the catalog keeps. -/
theorem related_of_registers (related : Store → Store → Prop)
    (hrefl : ∀ store, related store store)
    (htrans : ∀ {first mid last}, related first mid → related mid last → related first last)
    (hopen : ∀ path name schema primaryKey pageSize store,
      related store ((openTable path name schema primaryKey pageSize).perform store).2)
    (hclear : ∀ store : Store, related store { store with catalog := store.catalog.clear })
    (store : Store) {operation : Operation} (hregisters : operation.registers = true) :
    related store (store.step operation).2 := by
  cases operation with
  | openTable path name schema primaryKey pageSize =>
      show related store
        (Action.perform (_ <$> openTable path name schema primaryKey pageSize) store).2
      rw [Action.perform_map]
      exact hopen path name schema primaryKey pageSize store
  | loadSchema path =>
      show related store (Action.perform (_ <$> loadSchema path) store).2
      rw [Action.perform_map]
      exact related_loadSchema related hrefl htrans hopen path store
  | clearCatalog => exact hclear store
  | _ => exact absurd hregisters (by simp [Operation.registers])

theorem pool_of_registers (store : Store) {operation : Operation}
    (hregisters : operation.registers = true) : (store.step operation).2.pool = store.pool :=
  related_of_registers (fun before after => after.pool = before.pool) (fun _ => rfl)
    (fun hfirst hsecond => hsecond.trans hfirst) pool_openTable (fun _ => rfl) store hregisters

theorem Opened.fresh {store : Store} (hopened : Opened store) : store.Fresh := by
  induction hopened with
  | opened hopen => exact fresh_of_openAt hopen
  | registered hstore hregisters ih =>
      rename_i before operation
      have hpool := pool_of_registers before hregisters
      exact ⟨by rw [hpool, ih.resident], by rw [hpool, ih.locks], (sound_step ih.sound _).catalog⟩

/-! ## A sample -/

/-- The store that opening gives; an empty one if it fails. -/
def openedAt (disk : Disk) (logPath : String) (settings : Settings) : Store :=
  match (openAt disk .unarmed logPath settings).1 with
  | .ok store => store
  | .error _ => default

theorem opened_openedAt {disk : Disk} {logPath : String} {settings : Settings}
    (hok : (openAt disk .unarmed logPath settings).1.isOk = true) :
    Opened (openedAt disk logPath settings) := by
  rcases hopen : openAt disk .unarmed logPath settings with ⟨result, made⟩
  cases result with
  | error error =>
      rw [hopen] at hok
      exact absurd hok (by simp [Except.isOk, Except.toBool])
  | ok store =>
      simp only [openedAt, hopen]
      exact .opened hopen

/-- The schema of the tables of the sample. -/
def sampleSchema : Schema :=
  .ofTypes [.int]

/-- A row for these tables. -/
def sampleRow (value : Int32) : Row :=
  ⟨sampleSchema, [.int value], none⟩

theorem valid_sampleRow (value : Int32) : (sampleRow value).Valid :=
  ⟨rfl, rfl⟩

/-- The table in the file `a`. -/
def sampleTable : TableId :=
  .ofLocation ["a"]

/-- A database with one empty table, pages of 16 bytes and a cache for two pages. -/
def sample : Store :=
  ((openedAt ⟨[], []⟩ "log" { Settings.standard with capacity := 2, pageSize := 16 }).step
    (.openTable "a" "a" sampleSchema none 16)).2

theorem opened_sample : Opened sample :=
  .registered (opened_openedAt (by decide +kernel)) rfl

/-- The table of the sample. -/
def sampleHeap : Table :=
  (sample.catalog.table sampleTable).toOption.getD default

/-- A row of this table at an address. -/
def sampleRowAt (value : Int32) (number : UInt32) (slot : Nat) : Row :=
  ⟨sampleSchema, [.int value], some ⟨⟨sampleTable, number⟩, slot⟩⟩

end Store

end HeapStore
