import HeapStore.Proofs.Leftover
import Mathlib.Logic.Relation

/-!
# The schemas of cached pages

The catalog is asked for the schema of a page when the page is read from its file, that is when it
is loaded and when an abort restores it.  As long as the page then stays cached it keeps this
schema, whatever becomes of the table in the catalog: the cache is not told when a table is
registered again or forgotten.

A cached page is known by its reading, the stamp of its frame with its address and its schema.  No
operation makes a new one but under the schema that the catalog holds (`Renews`), so each page that
`getPage` gives was read under a schema that the catalog held, and has been cached since
(`schema_of_getPage`).  If the catalog still holds a compatible one, the page shows the rows that
its bytes have under that one.  `reregistered_shows_old_schema` is a page for which it does not.
-/

namespace HeapStore

/-! ## The schema of a table -/

/-- The schema that the catalog holds for a table. -/
def Catalog.schema? (catalog : Catalog) (id : TableId) : Option Schema :=
  (catalog.table id).toOption.map (·.schema)

theorem Catalog.schema?_of_table {catalog : Catalog} {id : TableId} {table : Table}
    (htable : catalog.table id = .ok table) : catalog.schema? id = some table.schema := by
  simp [schema?, htable, Except.toOption]

/-- A page that is read has the schema that the catalog holds for its table. -/
theorem Catalog.schema?_of_read {catalog : Catalog} {disk : Disk} {address : PageAddress}
    {page : Page} (hread : catalog.read disk address = .ok page) :
    catalog.schema? page.address.table = some page.schema := by
  have haddress := (of_filed? (filed?_of_read hread)).address
  obtain ⟨table, htable, hpage⟩ := table_of_filed? (filed?_of_read hread)
  rw [haddress, schema?_of_table htable, (Table.of_filed? hpage).2.1.schema]

/-! ## Readings -/

/-- What a frame keeps until its page is read again. -/
structure Reading where
  stamp : Nat
  address : PageAddress
  schema : Schema

/-- The reading of the page that the frame has. -/
def Frame.reading (frame : Frame) : Reading :=
  ⟨frame.stamp, frame.page.address, frame.page.schema⟩

/-- The readings of the cached pages. -/
def Pool.readings (pool : Pool) : List Reading :=
  pool.resident.map Frame.reading

/-- The catalog holds the schema of the reading. -/
def Catalog.Describes (catalog : Catalog) (reading : Reading) : Prop :=
  catalog.schema? reading.address.table = some reading.schema

theorem Pool.reading_mem {pool : Pool} {frame : Frame} (hframe : frame ∈ pool.resident) :
    frame.reading ∈ pool.readings :=
  List.mem_map_of_mem hframe

/-- A row that the operation inserts was built for its schema. -/
def Operation.Built : Operation → Prop
  | .insert _ _ row => row.Valid
  | _ => True

namespace Store

open HeapStore.Action

variable {store mid after : Store} {tid : TransactionId} {address : PageAddress} {reading : Reading}

/-- The store is sound, and so is each page in its cache. -/
structure Legible (store : Store) : Prop where
  sound : store.Sound
  pages : ∀ frame ∈ store.pool.resident, frame.page.Sound

/-- Each reading was there before, or the catalog held its schema. -/
structure Tracks (store after : Store) : Prop where
  legible : after.Legible
  readings : ∀ reading ∈ after.pool.readings,
    reading ∈ store.pool.readings ∨ store.catalog.Describes reading

/-- Besides, no table was registered or forgotten. -/
structure Renews (store after : Store) : Prop extends Tracks store after where
  catalog : after.catalog = store.catalog

theorem Renews.refl (hlegible : store.Legible) : store.Renews store :=
  ⟨⟨hlegible, fun _ hreading => .inl hreading⟩, rfl⟩

theorem Renews.trans (hfirst : store.Renews mid) (hsecond : mid.Renews after) :
    store.Renews after := by
  refine ⟨⟨hsecond.legible, ?_⟩, hsecond.catalog.trans hfirst.catalog⟩
  intro reading hreading
  rcases hsecond.readings reading hreading with hmid | hdescribes
  · exact hfirst.readings reading hmid
  · exact .inr (hfirst.catalog ▸ hdescribes)

theorem Renews.chain (hfirst : store.Legible → store.Renews mid)
    (hsecond : mid.Legible → mid.Renews after) (hlegible : store.Legible) : store.Renews after :=
  (hfirst hlegible).trans (hsecond (hfirst hlegible).legible)

/-- What is neither in the cache nor in the catalog does not matter. -/
theorem Renews.congr (hrenews : store.Renews mid) (hpool : after.pool = mid.pool)
    (hcatalog : after.catalog = mid.catalog) : store.Renews after := by
  refine ⟨⟨⟨⟨?_, ?_⟩, ?_⟩, ?_⟩, hcatalog.trans hrenews.catalog⟩
  · rw [hpool]
    exact hrenews.legible.sound.pool
  · rw [hcatalog]
    exact hrenews.legible.sound.catalog
  · rw [hpool]
    exact hrenews.legible.pages
  · rw [hpool]
    exact hrenews.readings

theorem Renews.withLocks (hrenews : store.Renews after) (locks : LockTable) :
    store.Renews (after.withLocks locks) :=
  ⟨⟨⟨sound_withLocks hrenews.legible.sound locks, hrenews.legible.pages⟩, hrenews.readings⟩,
    hrenews.catalog⟩

/-- Frames may leave. -/
theorem renews_fewer (hlegible : store.Legible) {pool : Pool} (hsound : pool.Sound)
    (hfewer : ∀ frame ∈ pool.resident, frame ∈ store.pool.resident) :
    store.Renews (store.withPool pool) := by
  refine ⟨⟨⟨sound_withPool hlegible.sound hsound, ?_⟩, ?_⟩, rfl⟩
  · exact fun frame hframe => hlegible.pages frame (hfewer frame hframe)
  · intro reading hreading
    obtain ⟨frame, hframe, rfl⟩ := List.mem_map.mp hreading
    exact .inl (Pool.reading_mem (hfewer frame hframe))

theorem renews_depart (hlegible : store.Legible) (leaves : Frame → Bool) :
    store.Renews (store.withPool (store.pool.depart leaves)) :=
  renews_fewer hlegible (Pool.sound_depart hlegible.sound.pool leaves)
    fun _ hframe => (Pool.mem_depart.mp hframe).1

theorem renews_evictPage (hlegible : store.Legible) (latched : List Nat) :
    store.Renews ((evictPage latched).perform store).2 := by
  rw [perform_evictPage]
  rcases store.pool.evict_cases latched with ⟨victim, -, -, hevict⟩ | ⟨error, hevict, -⟩
  · rw [hevict]
    exact renews_depart hlegible _
  · rw [hevict]
    exact .refl hlegible

/-- A frame gets a content that has its schema, or the one that the catalog holds. -/
theorem renews_replace (hlegible : store.Legible) {frame : Frame}
    (hframe : frame ∈ store.pool.resident) {page : Page} (hpage : page.Sound)
    (haddress : page.address = frame.page.address)
    (hschema : page.schema = frame.page.schema ∨
      store.catalog.schema? page.address.table = some page.schema) :
    store.Renews (store.withPool (store.pool.replace frame.stamp page)) := by
  refine ⟨⟨⟨sound_withPool hlegible.sound
    (Pool.sound_replace hlegible.sound.pool hframe haddress), ?_⟩, ?_⟩, rfl⟩
  · intro other hother
    rcases Pool.mem_replace.mp hother with ⟨hbefore, -⟩ | ⟨rfl, -⟩
    · exact hlegible.pages other hbefore
    · exact hpage
  · intro reading hreading
    obtain ⟨other, hother, rfl⟩ := List.mem_map.mp hreading
    rcases Pool.mem_replace.mp hother with ⟨hbefore, -⟩ | ⟨rfl, -⟩
    · exact .inl (Pool.reading_mem hbefore)
    · refine hschema.imp_left fun hsame => ?_
      have hreading := Pool.reading_mem hframe
      rw [Frame.reading, ← haddress, ← hsame] at hreading
      exact hreading

/-! ## Getting pages -/

theorem sound_of_read {catalog : Catalog} {disk : Disk} {page : Page}
    (hread : catalog.read disk address = .ok page) : page.Sound :=
  (Catalog.of_filed? (Catalog.filed?_of_read hread)).sound

/-- A page that is loaded has the schema that the catalog holds. -/
theorem renews_fetch (hlegible : store.Legible) (address : PageAddress) (latched : List Nat) :
    store.Renews (store.fetch address latched).2 := by
  obtain ⟨hsound, -⟩ := sound_fetch hlegible.sound address latched
  unfold fetch at hsound ⊢
  split at hsound
  · exact .refl hlegible
  · split at hsound
    · exact .refl hlegible
    · rename_i pool hmade
      have hroom := Pool.roomier_of_makeRoom hlegible.sound.pool hmade
      split at hsound
      · exact renews_fewer hlegible hroom.sound hroom.kept
      · rename_i page hread
        refine ⟨⟨⟨hsound, ?_⟩, ?_⟩, rfl⟩
        · intro frame hframe
          rcases List.mem_append.mp hframe with hframe | hframe
          · exact hlegible.pages frame (hroom.kept frame hframe)
          · rw [List.mem_singleton.mp hframe]
            exact sound_of_read hread
        · intro reading hreading
          obtain ⟨frame, hframe, rfl⟩ := List.mem_map.mp hreading
          rcases List.mem_append.mp hframe with hframe | hframe
          · exact .inl (Pool.reading_mem (hroom.kept frame hframe))
          · rw [List.mem_singleton.mp hframe]
            exact .inr (Catalog.schema?_of_read hread)

theorem renews_getPage (hlegible : store.Legible) (tid : TransactionId) (address : PageAddress)
    (access : Access) (latched : List Nat) :
    store.Renews ((getPage tid address access latched).perform store).2 := by
  rw [perform_getPage]
  split
  · exact .refl hlegible
  · rename_i locks _
    have hlocked := (Renews.refl hlegible).withLocks locks
    exact hlocked.trans (renews_fetch hlocked.legible address latched)

/-! ## Rows -/

theorem renews_seek (hlegible : store.Legible) (tid : TransactionId) (table : Table)
    (count number : Nat) : store.Renews (seek tid table count number store).2 :=
  related_seek (fun before after => before.Legible → before.Renews after) (fun _ => .refl)
    Renews.chain (fun address _ hstore => renews_getPage hstore tid address .readWrite [])
    (fun locks _ hstore => (Renews.refl hstore).withLocks locks) table count number store hlegible

theorem renews_growTable (hlegible : store.Legible) (table : Table) :
    store.Renews ((growTable table).perform store).2 := by
  rw [perform_growTable]
  split
  · exact .refl hlegible
  · exact (Renews.refl hlegible).congr rfl rfl

theorem renews_room (hlegible : store.Legible) (tid : TransactionId) (table : Table) :
    store.Renews (store.room tid table).2 :=
  related_room (fun before after => before.Legible → before.Renews after) Renews.chain table
    (fun count number _ hstore => renews_seek hstore tid table count number)
    (fun _ hstore => renews_growTable hstore table)
    (fun address _ hstore => renews_getPage hstore tid address .readWrite []) store hlegible

/-- A transaction changes the rows of a page. -/
theorem renews_withChange (hlegible : store.Legible) {frame : Frame}
    (hframe : frame ∈ store.pool.resident) (tid : TransactionId) {page : Page} (hpage : page.Sound)
    (haddress : page.address = frame.page.address) (hschema : page.schema = frame.page.schema) :
    store.Renews (store.withChange tid frame page) :=
  renews_replace hlegible hframe (Page.sound_withOwner hpage _) haddress (.inl hschema)

theorem renews_insertRow (hlegible : store.Legible) (tid : TransactionId) (id : TableId)
    {row : Row} (hvalid : row.Valid) : store.Renews ((insertRow tid id row).perform store).2 := by
  rw [perform_insertRow]
  split
  · exact .refl hlegible
  · rename_i table _
    split
    · have hroom := renews_room hlegible tid table
      obtain ⟨-, hcached⟩ := sound_room tid table hlegible.sound
      revert hroom hcached
      rcases store.room tid table with ⟨result, after⟩
      intro hroom hcached
      cases result with
      | error error => exact hroom
      | ok frame =>
          simp only
          split
          · exact hroom
          · rename_i placed page hinsert
            have hframe := hcached frame rfl
            have hpage := Page.sound_of_insert (hroom.legible.pages frame hframe) hvalid hinsert
            obtain ⟨place, -, hinserted⟩ := Page.inserted_of_insert hinsert
            apply hroom.trans
            apply renews_withChange hroom.legible hframe tid hpage
            · rw [hinserted.result]
              rfl
            · rw [hinserted.result]
              rfl
    · exact .refl hlegible

theorem renews_deleteRow (hlegible : store.Legible) (tid : TransactionId) (row : Row) :
    store.Renews ((deleteRow tid row).perform store).2 := by
  rw [perform_deleteRow]
  split
  · exact .refl hlegible
  · rename_i place _
    split
    · exact .refl hlegible
    · split
      · exact .refl hlegible
      · have hget := renews_getPage hlegible tid place.page .readWrite []
        obtain ⟨-, hcached⟩ := sound_getPage hlegible.sound tid place.page .readWrite []
        revert hget hcached
        rcases (getPage tid place.page .readWrite []).perform store with ⟨result, after⟩
        intro hget hcached
        cases result with
        | error error => exact hget
        | ok frame =>
            simp only
            split
            · exact hget
            · rename_i page hdelete
              have hframe := hcached frame rfl
              have hpage := Page.sound_of_delete (hget.legible.pages frame hframe) hdelete
              obtain ⟨_, hdeleted⟩ := Page.deleted_of_delete hdelete
              apply hget.trans
              apply renews_withChange hget.legible hframe tid hpage
              · rw [hdeleted.result]
                rfl
              · rw [hdeleted.result]
                rfl

theorem renews_scanPages (hlegible : store.Legible) (tid : TransactionId) (table : Table)
    (count number : Nat) : store.Renews (scanPages tid table count number store).2 :=
  related_scanPages (fun before after => before.Legible → before.Renews after) (fun _ => .refl)
    Renews.chain (fun address _ hstore => renews_getPage hstore tid address .readOnly [])
    table count number store hlegible

/-! ## Flushing and restoring -/

theorem renews_flushPage (hlegible : store.Legible) (address : PageAddress) :
    store.Renews ((flushPage address).perform store).2 := by
  rcases flushPage_cases address store with ⟨result, hflush, -⟩ | ⟨error, owner, record, hflush⟩ |
    ⟨frame, owner, record, disk, hfind, -, -, hflush⟩
  · rw [hflush]
    exact .refl hlegible
  · rw [hflush]
    exact (Renews.refl hlegible).congr rfl rfl
  · have hframe := (hlegible.sound.pool.find?_eq_some_iff.mp hfind).1
    have hpage : frame.page.settled.Sound :=
      Page.sound_snapshot (Page.sound_withOwner (hlegible.pages frame hframe) none)
    have hsettled : store.Renews
        (store.withPool (store.pool.replace frame.stamp frame.page.settled)) :=
      renews_replace hlegible hframe hpage rfl (.inl rfl)
    rw [hflush]
    exact hsettled.congr rfl rfl

/-- A page that is restored has the schema that the catalog holds. -/
theorem renews_restorePage (hlegible : store.Legible) (address : PageAddress) :
    store.Renews ((restorePage address).perform store).2 := by
  rw [perform_restorePage]
  split
  · exact .refl hlegible
  · rename_i frame hfind
    split
    · exact .refl hlegible
    · rename_i page hread
      obtain ⟨hframe, haddress⟩ := hlegible.sound.pool.find?_eq_some_iff.mp hfind
      exact renews_replace hlegible hframe (sound_of_read hread)
        ((address_of_read hread).trans haddress.symm) (.inr (Catalog.schema?_of_read hread))

theorem renews_forM {work : PageAddress → Action Unit}
    (hwork : ∀ store : Store, store.Legible → ∀ address,
      store.Renews ((work address).perform store).2)
    (addresses : List PageAddress) (hlegible : store.Legible) :
    store.Renews ((addresses.forM work).perform store).2 :=
  related_forM (fun before after => before.Legible → before.Renews after) (fun _ => .refl)
    Renews.chain (fun address _ store hstore => hwork store hstore address) store hlegible

theorem renews_flushEach (hlegible : store.Legible) (order : List PageAddress) :
    store.Renews ((order.forM flushPage).perform store).2 :=
  renews_forM (fun _ h address => renews_flushPage h address) order hlegible

theorem renews_completeIn (hlegible : store.Legible) (order : List PageAddress)
    (tid : TransactionId) (commit : Bool) :
    store.Renews ((completeIn order tid commit).perform store).2 := by
  have hwork : ∀ store : Store, store.Legible → ∀ address,
      store.Renews
        ((if commit then flushPage address else restorePage address).perform store).2 := by
    intro store hlegible address
    cases commit with
    | true => exact renews_flushPage hlegible address
    | false => exact renews_restorePage hlegible address
  have hwalk := renews_forM hwork order hlegible
  rw [perform_completeIn]
  revert hwalk
  generalize (List.forM _ _ : Action Unit).perform store = walked
  obtain ⟨result, mid⟩ := walked
  intro hwalk
  cases result with
  | error error => exact hwalk
  | ok _ => exact hwalk.withLocks _

theorem renews_finishIn (hlegible : store.Legible) (order : Store → List PageAddress)
    (tid : TransactionId) (commit : Bool) :
    store.Renews ((finishIn order tid commit).perform store).2 := by
  have hcomplete := renews_completeIn hlegible (order store) tid commit
  rw [perform_finishIn]
  revert hcomplete
  rcases (completeIn (order store) tid commit).perform store with ⟨result, mid⟩
  intro hcomplete
  cases result with
  | error error => exact hcomplete
  | ok _ => exact hcomplete.congr rfl rfl

theorem renews_endIn (hlegible : store.Legible) (order again : Store → List PageAddress)
    (tid : TransactionId) (commit : Bool) :
    store.Renews ((Parting.endIn order again tid commit).perform store).2 := by
  have hfinish := renews_finishIn hlegible order tid commit
  rw [Parting.perform_endIn]
  revert hfinish
  rcases (finishIn order tid commit).perform store with ⟨result, mid⟩
  intro hfinish
  cases result with
  | error error => exact hfinish.trans (renews_finishIn hfinish.legible again tid false)
  | ok _ => exact hfinish

theorem renews_parting (hlegible : store.Legible) (order again : Store → List PageAddress)
    (tid : TransactionId) (parting : Parting) :
    store.Renews ((parting.actionIn order again tid).perform store).2 := by
  cases parting with
  | commit => exact renews_endIn hlegible order again tid true
  | abort => exact renews_endIn hlegible order again tid false
  | drop =>
      rw [Parting.actionIn, Parting.perform_abandonIn]
      exact renews_finishIn hlegible order tid false

/-! ## Steps and runs -/

/-- What is done to the catalog leaves the cache alone. -/
theorem tracks_of_pool (hlegible : store.Legible) (hsound : after.Sound)
    (hpool : after.pool = store.pool) : store.Tracks after := by
  refine ⟨⟨hsound, ?_⟩, ?_⟩
  · rw [hpool]
    exact hlegible.pages
  · rw [hpool]
    exact fun _ hreading => .inl hreading

theorem tracks_step (hlegible : store.Legible) {operation : Operation}
    (hbuilt : operation.Built) : store.Tracks (store.step operation).2 := by
  -- What an action gives back does not matter for the store after it.
  have hdone : ∀ action : Action Unit, store.Renews (action.perform store).2 →
      store.Tracks ((action *> pure Reply.done).perform store).2 := by
    intro action haction
    rw [perform_seqRight_pure]
    exact haction.toTracks
  have hmap : ∀ {α : Type} (f : α → Reply) (action : Action α),
      store.Renews (action.perform store).2 → store.Tracks ((f <$> action).perform store).2 := by
    intro α f action haction
    rw [perform_map]
    exact haction.toTracks
  have hparts : ∀ (parting : Parting) (tid : TransactionId),
      store.Renews ((parting.action tid).perform store).2 := by
    intro parting tid
    rw [Parting.perform_action]
    exact renews_parting hlegible _ _ tid parting
  have hregisters : operation.registers = true → store.Tracks (store.step operation).2 :=
    fun h => tracks_of_pool hlegible (sound_step hlegible.sound operation)
      (pool_of_registers store h)
  have hsame : ∀ {after : Store}, after.pool = store.pool → after.catalog = store.catalog →
      store.Renews after := fun hpool hcatalog => (Renews.refl hlegible).congr hpool hcatalog
  cases operation with
  | begin => exact hmap _ _ (hsame rfl rfl)
  | getPage tid address access latched =>
      exact hmap _ _ (renews_getPage hlegible tid address access latched)
  | insert tid id row => exact hmap _ _ (renews_insertRow hlegible tid id hbuilt)
  | delete tid row => exact hdone _ (renews_deleteRow hlegible tid row)
  | scan tid id =>
      apply hmap
      rw [perform_scan]
      split
      · exact .refl hlegible
      · exact renews_scanPages hlegible tid _ _ _
  | commit tid => exact hdone _ (hparts .commit tid)
  | abort tid => exact hdone _ (hparts .abort tid)
  | abandon tid => exact hdone _ (hparts .drop tid)
  | complete tid commit =>
      apply hdone
      rw [perform_complete_eq]
      exact renews_completeIn hlegible _ tid commit
  | release tid address => exact hmap _ _ ((Renews.refl hlegible).withLocks _)
  | evict latched => exact hdone _ (renews_evictPage hlegible latched)
  | discard address => exact hdone _ (renews_depart hlegible _)
  | flushPage address => exact hdone _ (renews_flushPage hlegible address)
  | flushPagesOf tid => exact hdone _ (renews_flushEach hlegible _)
  | flushAll => exact hdone _ (renews_flushEach hlegible _)
  | openTable path name schema primaryKey pageSize => exact hregisters rfl
  | loadSchema path => exact hregisters rfl
  | clearCatalog => exact hregisters rfl
  | enable site => exact hdone _ (hsame rfl rfl)
  | disable site => exact hdone _ (hsame rfl rfl)
  | disarm => exact hdone _ (hsame rfl rfl)

/-- One operation, of which those that end a transaction or flush pages take the pages in any order;
or a table that was opened at some time is added to the catalog, or the files change otherwise. -/
inductive Step (store : Store) : Store → Prop
  | performs {operation : Operation} (hbuilt : operation.Built) :
      Step store (store.step operation).2
  | parts (parting : Parting) (order again : Store → List PageAddress) (tid : TransactionId) :
      Step store ((parting.actionIn order again tid).perform store).2
  | completes (order : List PageAddress) (tid : TransactionId) (commit : Bool) :
      Step store ((completeIn order tid commit).perform store).2
  | flushes (order : List PageAddress) : Step store ((order.forM flushPage).perform store).2
  | adds {disk made : Disk} {path name : String} {schema : Schema} {pageSize : Nat}
      {primaryKey : Option String} {table : Table} {catalog : Catalog}
      (hopen : Table.openFile disk path schema pageSize = (.ok table, made))
      (hadd : store.catalog.add table name primaryKey = .ok catalog) :
      Step store { store with catalog := catalog }
  | files (disk : Disk) : Step store { store with disk := disk }

theorem Step.tracks (hstep : store.Step after) (hlegible : store.Legible) :
    store.Tracks after := by
  cases hstep with
  | performs hbuilt => exact tracks_step hlegible hbuilt
  | parts parting order again tid =>
      exact (renews_parting hlegible order again tid parting).toTracks
  | completes order tid commit => exact (renews_completeIn hlegible order tid commit).toTracks
  | flushes order => exact (renews_flushEach hlegible order).toTracks
  | adds hopen hadd =>
      obtain ⟨hid, hlocation⟩ := Table.of_openFile hopen
      exact tracks_of_pool hlegible
        ⟨hlegible.sound.pool, Catalog.sound_add hlegible.sound.catalog hid hlocation hadd⟩ rfl
  | files disk => exact tracks_of_pool hlegible ⟨hlegible.sound.pool, hlegible.sound.catalog⟩ rfl

/-- Operations one after the other. -/
def Runs : Store → Store → Prop :=
  Relation.ReflTransGen Step

theorem Runs.run (operations : List Operation)
    (hbuilt : ∀ operation ∈ operations, operation.Built) (store : Store) :
    store.Runs (store.run operations) := by
  induction operations generalizing store with
  | nil => exact .refl
  | cons operation operations ih =>
      rw [List.forall_mem_cons] at hbuilt
      exact .head (.performs hbuilt.1) (ih hbuilt.2 _)

/-- Operations one after the other, while the page stays cached without being read again. -/
def Keeping (reading : Reading) (store after : Store) : Prop :=
  reading ∈ store.pool.readings ∧
    Relation.ReflTransGen (fun before next => before.Step next ∧ reading ∈ next.pool.readings)
      store after

/-- The page came to be cached under its schema in a step of the run in which the catalog held this
schema, and has been cached since. -/
def ReadSince (start store : Store) (reading : Reading) : Prop :=
  ∃ mid next, start.Runs mid ∧ reading ∉ mid.pool.readings ∧ mid.catalog.Describes reading ∧
    mid.Step next ∧ next.Keeping reading store

theorem ReadSince.step (hread : mid.ReadSince store reading) (hstep : store.Step after)
    (hreading : reading ∈ after.pool.readings) : mid.ReadSince after reading := by
  obtain ⟨before, next, hruns, hnew, hdescribes, hfirst, hthere, hkept⟩ := hread
  exact ⟨before, next, hruns, hnew, hdescribes, hfirst, hthere, hkept.tail ⟨hstep, hreading⟩⟩

theorem Fresh.legible (hfresh : store.Fresh) : store.Legible :=
  ⟨hfresh.sound, by simp [hfresh.resident]⟩

/-- Every cached page was read under a schema that the catalog held. -/
theorem readSince_of_runs {start : Store} (hopened : Opened start) (hruns : start.Runs store) :
    store.Legible ∧ ∀ reading ∈ store.pool.readings, start.ReadSince store reading := by
  induction hruns with
  | refl => exact ⟨hopened.fresh.legible, by simp [Pool.readings, hopened.fresh.resident]⟩
  | @tail mid after hruns hstep ih =>
      obtain ⟨hlegible, hread⟩ := ih
      have htracks := hstep.tracks hlegible
      refine ⟨htracks.legible, ?_⟩
      intro reading hreading
      by_cases hbefore : reading ∈ mid.pool.readings
      · exact (hread reading hbefore).step hstep hreading
      · have hdescribes := (htracks.readings reading hreading).resolve_left hbefore
        exact ⟨mid, after, hruns, hbefore, hdescribes, hstep, hreading, .refl⟩

/-! ## Pages that are got -/

/-- Whatever is done to the cache and to the catalog: a page that `getPage` loads has the schema
that the catalog holds for its table, and one that was cached has a schema that the catalog held
when it came to be cached under it.  If the catalog holds a compatible one now, the page shows the
rows that its bytes have under that one. -/
theorem schema_of_getPage {start : Store} (hopened : Opened start) (hruns : start.Runs store)
    {access : Access} {latched : List Nat} {frame : Frame}
    (hget : (getPage tid address access latched).perform store = (.ok frame, after)) :
    frame.page.address = address ∧
      (address ∉ store.pool.cached →
        store.catalog.schema? address.table = some frame.page.schema) ∧
      (address ∈ store.pool.cached → start.ReadSince store frame.reading) ∧
      ∀ now, store.catalog.schema? address.table = some now →
        now.compatible frame.page.schema = true →
          ∃ parsed, Page.parse address now frame.page.bytes = .ok parsed ∧ parsed.schema = now ∧
            parsed.rows = frame.page.rows.map fun row => { row with schema := now } := by
  obtain ⟨hlegible, hread⟩ := readSince_of_runs hopened hruns
  have hrenews := renews_getPage hlegible tid address access latched
  have hthere := (sound_getPage hlegible.sound tid address access latched).2 frame
  rw [hget] at hrenews hthere
  have hframe := hthere rfl
  obtain ⟨locks, -, hfetch⟩ := of_getPage hget
  obtain rfl : frame.page.address = address :=
    address_of_fetch (sound_withLocks hlegible.sound locks) hfetch
  refine ⟨rfl, ?_, ?_, ?_⟩
  · intro hloaded
    have hnew : frame.reading ∉ store.pool.readings := by
      intro hreading
      obtain ⟨former, hformer, hsame⟩ := List.mem_map.mp hreading
      exact hloaded (List.mem_map.mpr ⟨former, hformer, congrArg Reading.address hsame⟩)
    exact (hrenews.readings _ (Pool.reading_mem hframe)).resolve_left hnew
  · intro hcached
    rcases of_fetch hfetch with ⟨hfind, -⟩ | ⟨hfind, -⟩
    · exact hread _ (Pool.reading_mem (List.mem_of_find?_eq_some hfind))
    · exact absurd hcached (Pool.not_mem_cached_of_find? hfind)
  · intro now _ hcompatible
    exact Page.parse_of_compatible (hrenews.legible.pages frame hframe) hcompatible

/-- A result that passes a check is no error. -/
theorem exists_of_any {α : Type} {result : Except StoreError α} {check : α → Bool}
    (hany : result.toOption.any check = true) :
    ∃ value, result = .ok value ∧ check value = true := by
  cases result with
  | error error => simp [Except.toOption] at hany
  | ok value => exact ⟨value, rfl, by simpa [Except.toOption] using hany⟩

/-- The column of the sample under another name. -/
def renamedSchema : Schema :=
  ⟨[⟨.int, "value"⟩]⟩

/-- A page was loaded and changed, and its file registered again with another name for the
column. -/
def renamed : Store :=
  sample.run [.begin, .insert 1 sampleTable (sampleRow 7), .commit 1,
    .openTable "a" "b" renamedSchema none 16]

theorem runs_renamed : sample.Runs renamed :=
  Runs.run _ (by simp [Operation.Built, valid_sampleRow]) sample

theorem schema_of_getPage_renamed :
    ∃ frame after,
      (getPage 2 ⟨sampleTable, 0⟩ .readOnly []).perform renamed = (.ok frame, after) ∧
      frame.page.schema = sampleSchema ∧ sample.ReadSince renamed frame.reading ∧
      ∃ parsed, Page.parse ⟨sampleTable, 0⟩ renamedSchema frame.page.bytes = .ok parsed ∧
        parsed.schema = renamedSchema ∧
        parsed.rows = frame.page.rows.map fun row => { row with schema := renamedSchema } := by
  have hany : ((getPage 2 ⟨sampleTable, 0⟩ .readOnly []).perform renamed).1.toOption.any
      (·.page.schema = sampleSchema) = true := by decide +kernel
  obtain ⟨frame, hframe, hschema⟩ := exists_of_any hany
  have hold : frame.page.schema = sampleSchema := by simpa using hschema
  have hget : (getPage 2 ⟨sampleTable, 0⟩ .readOnly []).perform renamed = (.ok frame, _) :=
    Prod.ext hframe rfl
  obtain ⟨-, -, hsince, hrows⟩ := schema_of_getPage opened_sample runs_renamed hget
  refine ⟨frame, _, hget, hold, hsince (by decide +kernel), ?_⟩
  exact hrows renamedSchema (by decide +kernel) (by rw [hold]; decide)

/-- The file of the page was registered again with another column. -/
def reregistered : Store :=
  sample.run [.begin, .insert 1 sampleTable (sampleRow 7), .commit 1,
    .openTable "a" "a" (.ofTypes [.int, .int]) none 16]

theorem reregistered_shows_old_schema :
    ∃ start store tid address frame now, Opened start ∧ start.Runs store ∧
      ((getPage tid address .readOnly []).perform store).1 = .ok frame ∧
      store.catalog.schema? address.table = some now ∧
      now.compatible frame.page.schema = false ∧
      ∀ parsed, Page.parse address now frame.page.bytes = .ok parsed →
        parsed.rows.map Row.entry ≠ frame.page.rows.map Row.entry := by
  have hany : ((getPage 2 ⟨sampleTable, 0⟩ .readOnly []).perform reregistered).1.toOption.any
      (fun frame => (Schema.ofTypes [.int, .int]).compatible frame.page.schema = false ∧
        (Page.parse ⟨sampleTable, 0⟩ (.ofTypes [.int, .int]) frame.page.bytes).toOption.all
          fun parsed => parsed.rows.map Row.entry ≠ frame.page.rows.map Row.entry) = true := by
    decide +kernel
  obtain ⟨frame, hframe, hcheck⟩ := exists_of_any hany
  obtain ⟨hother, hrows⟩ := of_decide_eq_true hcheck
  refine ⟨sample, reregistered, 2, ⟨sampleTable, 0⟩, frame, .ofTypes [.int, .int], opened_sample,
    Runs.run _ (by simp [Operation.Built, valid_sampleRow]) sample, hframe, by decide +kernel,
    hother, ?_⟩
  intro parsed hparse
  simpa [hparse, Except.toOption] using hrows

end Store

end HeapStore
