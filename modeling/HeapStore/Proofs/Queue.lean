import HeapStore.Proofs.Invariant
import HeapStore.Proofs.Line

/-!
# The cache is a queue

`Store.Advances` says for each operation what it gives and what it does to the line of cached
frames: `Request` for one page that is asked for, `Asked` for several in a row, `Changed` for a row
that is inserted or deleted, `Unmoved` if all pages keep their places.  Every operation advances
the line like this (`advances_step`), so in every run the cache is a bounded queue in load order
(`fifo_run`).
-/

namespace HeapStore

/-- The operation may change which pages are cached. -/
def Operation.movesPages : Operation → Bool
  | .getPage _ _ _ _ => true
  | .insert _ _ _ => true
  | .delete _ _ => true
  | .scan _ _ => true
  | .evict _ => true
  | .discard _ => true
  | _ => false

namespace Store

open Pool HeapStore.Action

variable {store : Store} {tid : TransactionId} {address : PageAddress}

/-! ## Requests for pages -/

theorem request_fetch (hsound : store.Sound) (address : PageAddress) (latched : List Nat) :
    Request store.pool.settings.capacity latched address (store.catalog.read store.disk address)
        store.pool.resident (store.fetch address latched).1
        (store.fetch address latched).2.pool.resident ∧
      (store.fetch address latched).2.pool.settings = store.pool.settings := by
  unfold fetch
  cases hfind : store.pool.find? address with
  | some frame =>
      obtain ⟨hframe, haddress⟩ := hsound.pool.find?_eq_some_iff.mp hfind
      exact ⟨.hit hframe haddress, rfl⟩
  | none =>
      have hmissing : ∀ frame ∈ store.pool.resident, frame.page.address ≠ address := by
        intro frame hframe haddress
        exact not_mem_cached_of_find? hfind (haddress ▸ List.mem_map_of_mem hframe)
      rcases makeRoom_line hsound.pool latched with ⟨left, hmade, hsettings, hnext, hroom⟩ |
        ⟨error, hmade, hfull, hstuck⟩
      · simp only [hmade]
        cases hread : store.catalog.read store.disk address with
        | error error => exact ⟨.unread hmissing hroom rfl, hsettings⟩
        | ok page =>
            have hstamp : ∀ frame ∈ store.pool.resident, frame.stamp < left.nextStamp := by
              rw [hnext]
              exact hsound.pool.given
            exact ⟨.loaded hmissing hroom rfl (address_of_read hread) hstamp, hsettings⟩
      · simp only [hmade, and_true]
        exact .refused hmissing hfull hstuck

theorem asked_getPage (hsound : store.Sound) (tid : TransactionId) (address : PageAddress)
    (access : Access) :
    store.pool.Asked ((getPage tid address access []).perform store).2.pool := by
  rw [perform_getPage]
  split
  · exact .refl _
  · rename_i locks _
    obtain ⟨hrequest, hsettings⟩ := request_fetch (sound_withLocks hsound locks) address []
    exact ⟨.ask hrequest (.done _), hsettings⟩

/-- The store is kept sound, and pages were asked for. -/
def Asks (store after : Store) : Prop :=
  store.Sound → after.Sound ∧ store.pool.Asked after.pool

theorem Asks.refl (store : Store) : store.Asks store :=
  fun hsound => ⟨hsound, .refl _⟩

theorem Asks.trans {mid after : Store} (hfirst : store.Asks mid) (hsecond : mid.Asks after) :
    store.Asks after := by
  intro hsound
  obtain ⟨hmid, hasked⟩ := hfirst hsound
  exact ⟨(hsecond hmid).1, hasked.trans (hsecond hmid).2⟩

theorem asks_getPage (tid : TransactionId) (address : PageAddress) (access : Access)
    (store : Store) : store.Asks ((getPage tid address access []).perform store).2 :=
  fun hsound => ⟨(sound_getPage hsound tid address access []).1,
    asked_getPage hsound tid address access⟩

/-- The locks that are given up are not part of the line. -/
theorem asks_seek (tid : TransactionId) (table : Table) (count number : Nat) (store : Store) :
    store.Asks (seek tid table count number store).2 :=
  related_seek Asks .refl .trans (fun address => asks_getPage tid address .readWrite)
    (fun locks _ hsound => ⟨sound_withLocks hsound locks, .done _, rfl⟩) table count number store

theorem asks_growTable (table : Table) (store : Store) :
    store.Asks ((growTable table).perform store).2 := by
  intro hsound
  rw [perform_growTable]
  split
  · exact ⟨hsound, .refl _⟩
  · exact ⟨⟨hsound.pool, hsound.catalog⟩, .refl _⟩

theorem asked_room (tid : TransactionId) (table : Table) (hsound : store.Sound) :
    store.pool.Asked (store.room tid table).2.pool :=
  (related_room Asks .trans table (asks_seek tid table) (asks_growTable table)
    (fun address => asks_getPage tid address .readWrite) store hsound).2

theorem asked_scanPages (tid : TransactionId) (table : Table) (count number : Nat)
    (hsound : store.Sound) :
    store.pool.Asked (scanPages tid table count number store).2.pool :=
  (related_scanPages Asks .refl .trans (fun address => asks_getPage tid address .readOnly)
    table count number store hsound).2

/-! ## Pages that are changed, written and restored -/

theorem unmoved_flushPage (hsound : store.Sound) (address : PageAddress) :
    store.pool.Unmoved ((flushPage address).perform store).2.pool := by
  rcases flushPage_cases address store with ⟨result, hflush, -⟩ | ⟨error, owner, record, hflush⟩ |
    ⟨frame, owner, record, disk, hfind, -, -, hflush⟩
  · rw [hflush]
    exact .refl _
  · rw [hflush]
    exact .refl _
  · rw [hflush]
    exact unmoved_replace hsound.pool (hsound.pool.find?_eq_some_iff.mp hfind).1 rfl

theorem unmoved_restorePage (hsound : store.Sound) (address : PageAddress) :
    store.pool.Unmoved ((restorePage address).perform store).2.pool := by
  rw [perform_restorePage]
  split
  · exact .refl _
  · rename_i frame hfind
    split
    · exact .refl _
    · rename_i page hread
      obtain ⟨hmem, haddress⟩ := hsound.pool.find?_eq_some_iff.mp hfind
      exact unmoved_replace hsound.pool hmem ((address_of_read hread).trans haddress.symm)

/-- The store is kept sound, and no page was moved in the line. -/
def Stays (store after : Store) : Prop :=
  store.Sound → after.Sound ∧ store.pool.Unmoved after.pool

theorem Stays.refl (store : Store) : store.Stays store :=
  fun hsound => ⟨hsound, .refl _⟩

theorem Stays.trans {mid after : Store} (hfirst : store.Stays mid) (hsecond : mid.Stays after) :
    store.Stays after := by
  intro hsound
  obtain ⟨hmid, hunmoved⟩ := hfirst hsound
  exact ⟨(hsecond hmid).1, hunmoved.trans (hsecond hmid).2⟩

theorem stays_flushPage (address : PageAddress) (store : Store) :
    store.Stays ((flushPage address).perform store).2 :=
  fun hsound => ⟨sound_flushPage hsound address, unmoved_flushPage hsound address⟩

theorem stays_restorePage (address : PageAddress) (store : Store) :
    store.Stays ((restorePage address).perform store).2 :=
  fun hsound => ⟨sound_restorePage hsound address, unmoved_restorePage hsound address⟩

theorem stays_withLocks (locks : LockTable) (store : Store) :
    store.Stays (store.withLocks locks) :=
  fun hsound => ⟨sound_withLocks hsound locks, rfl, rfl, rfl⟩

theorem stays_logged (tid : TransactionId) (record : LogRecord) (store : Store) :
    store.Stays (store.logged tid record) :=
  fun hsound => ⟨⟨hsound.pool, hsound.catalog⟩, .refl _⟩

theorem unmoved_flushEach (addresses : List PageAddress) (hsound : store.Sound) :
    store.pool.Unmoved ((addresses.forM flushPage).perform store).2.pool :=
  (related_forM Stays .refl .trans (fun address _ => stays_flushPage address) store hsound).2

theorem unmoved_complete (hsound : store.Sound) (tid : TransactionId) (commit : Bool) :
    store.pool.Unmoved ((complete tid commit).perform store).2.pool :=
  (related_complete Stays .refl .trans stays_flushPage stays_restorePage stays_withLocks commit
    store hsound).2

theorem unmoved_finish (hsound : store.Sound) (tid : TransactionId) (commit : Bool) :
    store.pool.Unmoved ((finish tid commit).perform store).2.pool :=
  (related_finish Stays .refl .trans stays_flushPage stays_restorePage stays_withLocks stays_logged
    commit store hsound).2

theorem unmoved_endWith (hsound : store.Sound) (tid : TransactionId) (commit : Bool) :
    store.pool.Unmoved ((endWith tid commit).perform store).2.pool :=
  (related_endWith Stays .refl .trans stays_flushPage stays_restorePage stays_withLocks stays_logged
    commit store hsound).2

/-- A change of a row: pages are asked for, and the changed page is put back into its frame. -/
inductive Changed {α : Type} (tid : TransactionId) (pool : Pool) : Except StoreError α → Pool → Prop
  | failed {error : StoreError} {asked : Pool} (hasked : pool.Asked asked) :
      Changed tid pool (.error error) asked
  | changed {a : α} {asked after : Pool} {page : Page} (hasked : pool.Asked asked)
      (howner : page.owner = some tid) (hback : asked.putBack page = .ok after)
      (hunmoved : asked.Unmoved after) : Changed tid pool (.ok a) after

theorem changed_withChange {α : Type} {after : Store} (hafter : after.Sound)
    (hasked : store.pool.Asked after.pool) {frame : Frame} (hframe : frame ∈ after.pool.resident)
    {page : Page} (haddress : page.address = frame.page.address) (a : α) :
    Changed tid store.pool (.ok a) (after.withChange tid frame page).pool := by
  have hsame : (page.withOwner (some tid)).address = frame.page.address := haddress
  exact .changed hasked rfl (putBack_eq hafter.pool hframe hsame)
    (unmoved_replace hafter.pool hframe hsame)

theorem changed_insertRow (hsound : store.Sound) (tid : TransactionId) (id : TableId) (row : Row) :
    Changed tid store.pool ((insertRow tid id row).perform store).1
      ((insertRow tid id row).perform store).2.pool := by
  rw [perform_insertRow]
  split
  · exact .failed (.refl _)
  · rename_i table _
    split
    · have hroom := sound_room tid table hsound
      have hasked := asked_room tid table hsound
      revert hroom hasked
      rcases store.room tid table with ⟨result, after⟩
      rintro ⟨hafter, hcached⟩ hasked
      cases result with
      | error error => exact .failed hasked
      | ok frame =>
          simp only
          split
          · exact .failed hasked
          · rename_i placed page hinsert
            obtain ⟨place, -, hinserted⟩ := Page.inserted_of_insert hinsert
            refine changed_withChange hafter hasked (hcached frame rfl) ?_ placed
            rw [hinserted.result]
            rfl
    · exact .failed (.refl _)

theorem changed_deleteRow (hsound : store.Sound) (tid : TransactionId) (row : Row) :
    Changed tid store.pool ((deleteRow tid row).perform store).1
      ((deleteRow tid row).perform store).2.pool := by
  rw [perform_deleteRow]
  split
  · exact .failed (.refl _)
  · rename_i place _
    split
    · exact .failed (.refl _)
    · split
      · exact .failed (.refl _)
      · have hpage := sound_getPage hsound tid place.page .readWrite []
        have hasked := asked_getPage hsound tid place.page .readWrite
        revert hpage hasked
        rcases (getPage tid place.page .readWrite []).perform store with ⟨result, after⟩
        rintro ⟨hafter, hcached⟩ hasked
        cases result with
        | error error => exact .failed hasked
        | ok frame =>
            simp only
            split
            · exact .failed hasked
            · rename_i page hdelete
              obtain ⟨place', hdeleted⟩ := Page.deleted_of_delete hdelete
              refine changed_withChange hafter hasked (hcached frame rfl) ?_ ()
              rw [hdeleted.result]
              rfl

/-! ## Operations -/

/-- What an operation gives and does to the line. -/
def Advances (store : Store) (answer : Except StoreError Reply) (after : Pool) : Operation → Prop
  | .getPage tid address access latched =>
    match store.pool.locks.acquire address tid access.lockMode with
    | .error error => answer = .error error ∧ after = store.pool
    | .ok _ => ∃ found, answer = found.map Reply.frame ∧
        Request store.pool.settings.capacity latched address
          (store.catalog.read store.disk address) store.pool.resident found after.resident
  | .insert tid _ _ => Changed tid store.pool answer after
  | .delete tid _ => Changed tid store.pool answer after
  | .scan _ _ => store.pool.Asked after
  | .evict latched =>
    (answer = .ok .done ∧ Departs latched store.pool.resident after.resident) ∨
      ∃ error, answer = .error error ∧ after = store.pool ∧
        Stuck latched store.pool.resident error
  | .discard address =>
    after.resident = store.pool.resident.filter fun frame => frame.page.address ≠ address
  | _ => store.pool.Unmoved after

theorem Changed.map {α β : Type} {pool after : Pool} {answer : Except StoreError α}
    (hchanged : Changed tid pool answer after) (f : α → β) :
    Changed tid pool (answer.map f) after := by
  cases hchanged with
  | failed hasked => exact .failed hasked
  | changed hasked howner hback hunmoved => exact .changed hasked howner hback hunmoved

theorem Changed.settings {α : Type} {pool after : Pool} {answer : Except StoreError α}
    (hchanged : Changed tid pool answer after) : after.settings = pool.settings := by
  cases hchanged with
  | failed hasked => exact hasked.settings
  | changed hasked _ _ hunmoved => exact hunmoved.settings.trans hasked.settings

theorem unmoved_step (hsound : store.Sound) {operation : Operation}
    (hstill : operation.movesPages = false) :
    store.pool.Unmoved (store.step operation).2.pool := by
  have hdone : ∀ action : Action Unit, store.pool.Unmoved (action.perform store).2.pool →
      store.pool.Unmoved ((action *> pure Reply.done).perform store).2.pool := by
    intro action haction
    rw [perform_seqRight_pure]
    exact haction
  have hflush := fun addresses : List PageAddress => unmoved_flushEach addresses hsound
  cases operation with
  | begin => exact .refl _
  | commit tid => exact hdone _ (unmoved_endWith hsound tid true)
  | abort tid => exact hdone _ (unmoved_endWith hsound tid false)
  | abandon tid =>
      apply hdone
      rw [perform_abandon]
      exact unmoved_finish hsound tid false
  | complete tid committed => exact hdone _ (unmoved_complete hsound tid committed)
  | release tid address => exact ⟨rfl, rfl, rfl⟩
  | flushPage address => exact hdone _ (unmoved_flushPage hsound address)
  | flushPagesOf tid => exact hdone _ (hflush _)
  | flushAll => exact hdone _ (hflush _)
  | openTable path name schema primaryKey pageSize =>
      rw [pool_of_registers store rfl]
      exact .refl _
  | loadSchema path =>
      rw [pool_of_registers store rfl]
      exact .refl _
  | clearCatalog => exact .refl _
  | enable site => exact .refl _
  | disable site => exact .refl _
  | disarm => exact .refl _
  | _ => exact absurd hstill (by simp [Operation.movesPages])

/-- Every operation advances the line as said, and the capacity stays. -/
theorem advances_step (hsound : store.Sound) (operation : Operation) :
    store.Advances (store.step operation).1 (store.step operation).2.pool operation ∧
      (store.step operation).2.pool.settings = store.pool.settings := by
  have hunmoved : operation.movesPages = false → _ := unmoved_step hsound
  cases operation with
  | getPage tid address access latched =>
      simp only [Advances, step, Operation.action, perform_map, perform_getPage]
      cases store.pool.locks.acquire address tid access.lockMode with
      | error error => exact ⟨⟨rfl, rfl⟩, rfl⟩
      | ok locks =>
          obtain ⟨hrequest, hsettings⟩ :=
            request_fetch (sound_withLocks hsound locks) address latched
          exact ⟨⟨_, rfl, hrequest⟩, hsettings⟩
  | insert tid table row =>
      have hchanged := (changed_insertRow hsound tid table row).map Reply.row
      simp only [Advances, step, Operation.action, perform_map]
      exact ⟨hchanged, hchanged.settings⟩
  | delete tid row =>
      have hchanged := (changed_deleteRow hsound tid row).map fun _ => Reply.done
      simp only [Advances, step, Operation.action, perform_seqRight_pure]
      exact ⟨hchanged, hchanged.settings⟩
  | scan tid table =>
      have hasked : store.pool.Asked ((Store.scan tid table).perform store).2.pool := by
        rw [perform_scan]
        split
        · exact .refl _
        · exact asked_scanPages tid _ _ _ hsound
      simp only [Advances, step, Operation.action, perform_map]
      exact ⟨hasked, hasked.settings⟩
  | evict latched =>
      simp only [Advances, step, Operation.action, perform_seqRight_pure, perform_evictPage]
      rcases evict_line hsound.pool latched with ⟨left, hevict, hsettings, -, hdeparts⟩ |
        ⟨error, hevict, hstuck⟩
      · rw [hevict]
        exact ⟨Or.inl ⟨rfl, hdeparts⟩, hsettings⟩
      · rw [hevict]
        exact ⟨Or.inr ⟨error, rfl, rfl, hstuck⟩, rfl⟩
  | discard address =>
      refine ⟨?_, rfl⟩
      simp only [Advances, ne_eq, decide_not]
      rfl
  | _ => exact ⟨hunmoved rfl, (hunmoved rfl).settings⟩

theorem Changed.aged {α : Type} {pool after : Pool} {answer : Except StoreError α}
    (hchanged : Changed tid pool answer after) (haged : Aged pool.resident) :
    Aged after.resident := by
  cases hchanged with
  | failed hasked => exact hasked.requests.aged haged
  | changed hasked _ _ hunmoved => exact hunmoved.aged (hasked.requests.aged haged)

/-- Whatever an operation does to the line, the stamps stay in order. -/
theorem Advances.aged {answer : Except StoreError Reply} {after : Pool} {operation : Operation}
    (hadvances : store.Advances answer after operation) (haged : Aged store.pool.resident) :
    Aged after.resident := by
  cases operation with
  | getPage tid address access latched =>
      simp only [Advances] at hadvances
      split at hadvances
      · rw [hadvances.2]
        exact haged
      · obtain ⟨found, -, hrequest⟩ := hadvances
        exact hrequest.aged haged
  | insert tid table row => exact Changed.aged hadvances haged
  | delete tid row => exact Changed.aged hadvances haged
  | scan tid table => exact (show store.pool.Asked after from hadvances).requests.aged haged
  | evict latched =>
      rcases hadvances with ⟨-, hdeparts⟩ | ⟨error, -, hsame, -⟩
      · exact haged.sublist hdeparts.sublist
      · rw [hsame]
        exact haged
  | discard address =>
      rw [show after.resident = _ from hadvances]
      exact haged.filter _
  | _ => exact Unmoved.aged hadvances haged

/-! ## Runs -/

theorem Reached.aged {store : Store} (hreached : Reached store) : Aged store.pool.resident := by
  induction hreached with
  | opened hopen =>
      rw [(fresh_of_openAt hopen).resident]
      exact List.Pairwise.nil
  | stepped hstore operation ih => exact (advances_step hstore.sound operation).1.aged ih

theorem settings_run (hsound : store.Sound) (operations : List Operation) :
    (store.run operations).pool.settings = store.pool.settings := by
  induction operations generalizing store with
  | nil => rfl
  | cons operation operations ih =>
      exact (ih (sound_step hsound operation)).trans (advances_step hsound operation).2

end Store

/-- The cached pages stand in a line within the capacity, and the stamps say which one: frames kept
in any other order are listed and evicted just like the line. -/
structure Pool.Queued (pool : Pool) : Prop where
  bounded : pool.cached.length ≤ pool.settings.capacity
  distinct : pool.cached.Nodup
  aged : Pool.Aged pool.resident
  listed : ∀ entries : List Frame, entries.Perm pool.resident → Pool.listed entries = pool.cached
  evicts : ∀ (entries : List Frame) (latched : List Nat), entries.Perm pool.resident →
    (∃ rest left, Pool.evictAny latched entries = .ok rest ∧ pool.evict latched = .ok left ∧
        rest.Perm left.resident) ∨
      ∃ error, Pool.evictAny latched entries = .error error ∧ pool.evict latched = .error error

namespace Store

open Pool

theorem Reached.queued {store : Store} (hreached : Reached store) : store.pool.Queued := by
  have hpool := hreached.sound.pool
  have haged := hreached.aged
  refine ⟨?_, hpool.addresses, haged, fun entries => listed_eq hpool haged,
    fun entries latched hperm => evictAny_eq hpool haged hperm latched⟩
  rw [cached, List.length_map]
  exact hpool.room

/-- In every run the cache is a bounded queue, and each operation advances it as said: pages that
are loaded come last, the first page that may leave is evicted, and nothing else moves. -/
theorem fifo_run {store : Store} (hopened : Opened store) (operations : List Operation) :
    (store.run operations).pool.settings = store.pool.settings ∧
      (store.run operations).pool.Queued ∧
      ∀ operation, (store.run operations).Advances ((store.run operations).step operation).1
        ((store.run operations).step operation).2.pool operation := by
  have hreached := hopened.reached.run operations
  exact ⟨settings_run hopened.reached.sound operations, hreached.queued,
    fun operation => (advances_step hreached.sound operation).1⟩

/-- Four rows fill two pages, which stay in load order through hits and the commit.  A latch on the
first page makes the second one leave. -/
theorem fifo_run_latched :
    let rows := [.begin, .insert 1 sampleTable (sampleRow 1), .insert 1 sampleTable (sampleRow 2),
      .insert 1 sampleTable (sampleRow 3), .insert 1 sampleTable (sampleRow 4), .commit 1,
      .getPage 2 ⟨sampleTable, 0⟩ .readOnly []]
    (sample.run rows).pool.cached = [⟨sampleTable, 0⟩, ⟨sampleTable, 1⟩] ∧
      (sample.run rows).pool.Queued ∧
      (sample.run (rows ++ [.evict [0]])).pool.cached = [⟨sampleTable, 0⟩] ∧
      (sample.run rows).Advances ((sample.run rows).step (.evict [0])).1
        ((sample.run rows).step (.evict [0])).2.pool (.evict [0]) := by
  intro rows
  obtain ⟨-, hqueued, hadvances⟩ := fifo_run opened_sample rows
  exact ⟨by decide +kernel, hqueued, by decide +kernel, hadvances _⟩

end Store

end HeapStore
