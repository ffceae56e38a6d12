import HeapStore.Proofs.Isolation

/-!
# Changed pages have one holder

As long as nobody gives up a lock by hand, a cached page that a transaction has changed is locked
by this transaction alone, in exclusive mode.  This holds whatever else happens to the store: pages
that are evicted, discarded or flushed by anybody, failpoints, tables that come and go, and ends of
transactions that fail half-way.

What happens to a store is of three kinds.  Most operations change no page and take no exclusive
lock from anybody (`Keeps`).  A row that is put or taken away changes a page that its transaction
has locked exclusively (`Changes`).  A transaction that ends gives up its locks once it has no
changed page left (`Leaves`).  Each kind keeps the invariant `Exclusive`, and `dirty_pages_locked`
is what it says of every store that comes about.
-/

namespace HeapStore

theorem LockTable.holders_of_exclusive {table : LockTable} {page : PageAddress}
    {tid : TransactionId} (hexclusive : table.mode? page tid = some .exclusive) :
    table.holders page = [(tid, .exclusive)] := by
  simp only [mode?] at hexclusive
  cases hlock : table.lock? page with
  | none => simp [hlock] at hexclusive
  | some lock =>
      simp only [hlock, Option.bind_some] at hexclusive
      cases lock with
      | shared holders => simp [PageLock.mode?] at hexclusive
      | exclusive holder =>
          simp only [PageLock.mode?, Option.ite_none_right_eq_some, and_true] at hexclusive
          simp [holders, hlock, PageLock.holders, hexclusive]

/-- A transaction that has given up its locks holds no page. -/
theorem LockTable.pagesOf_releaseAll (table : LockTable) (tid : TransactionId) :
    (table.releaseAll tid).pagesOf tid = [] := by
  simp only [pagesOf, releaseAll, List.map_eq_nil_iff, List.filter_eq_nil_iff, List.mem_filterMap,
    Option.map_eq_some_iff]
  rintro entry ⟨former, -, lock, hlock, rfl⟩
  have hmode := PageLock.mode?_without? former.2 tid tid
  rw [hlock, if_pos rfl, Option.bind_some] at hmode
  simp [hmode]

namespace Store

open HeapStore.Action

variable {store mid after : Store} {tid : TransactionId} {address : PageAddress}

/-! ## What happens to a store -/

/-- Cache, catalog and locks are sound. -/
structure Orderly (store : Store) : Prop where
  sound : store.Sound
  locks : store.pool.locks.Sound

/-- No page was changed, and nobody lost an exclusive lock. -/
structure Keeps (store after : Store) : Prop where
  orderly : after.Orderly
  dirty : ∀ frame ∈ after.pool.resident, frame.page.owner.isSome = true →
    frame ∈ store.pool.resident
  exclusive : ∀ page who, store.pool.locks.mode? page who = some .exclusive →
    after.pool.locks.mode? page who = some .exclusive

/-- A transaction changed a page that it has locked exclusively, and no other page was changed. -/
structure Changes (store : Store) (tid : TransactionId) (address : PageAddress) (after : Store) :
    Prop where
  orderly : after.Orderly
  dirty : ∀ frame ∈ after.pool.resident, frame.page.owner.isSome = true →
    frame ∈ store.pool.resident ∨ (frame.page.address = address ∧ frame.page.owner = some tid)
  exclusive : ∀ page who, store.pool.locks.mode? page who = some .exclusive →
    after.pool.locks.mode? page who = some .exclusive
  locked : after.pool.locks.mode? address tid = some .exclusive

/-- A transaction gave up all its locks, and has no changed page left. -/
structure Leaves (store : Store) (tid : TransactionId) (after : Store) : Prop where
  orderly : after.Orderly
  dirty : ∀ frame ∈ after.pool.resident, frame.page.owner.isSome = true →
    frame ∈ store.pool.resident ∧ frame.page.owner ≠ some tid
  exclusive : ∀ page who, who ≠ tid → store.pool.locks.mode? page who = some .exclusive →
    after.pool.locks.mode? page who = some .exclusive
  gone : after.pool.locks.pagesOf tid = []

theorem Keeps.refl (horderly : store.Orderly) : store.Keeps store :=
  ⟨horderly, fun _ hframe _ => hframe, fun _ _ hexclusive => hexclusive⟩

theorem Keeps.trans (hfirst : store.Keeps mid) (hsecond : mid.Keeps after) : store.Keeps after :=
  ⟨hsecond.orderly,
    fun frame hframe hdirty => hfirst.dirty frame (hsecond.dirty frame hframe hdirty) hdirty,
    fun page who hexclusive => hsecond.exclusive page who (hfirst.exclusive page who hexclusive)⟩

theorem Keeps.leaves (hfirst : store.Keeps mid) (hsecond : mid.Leaves tid after) :
    store.Leaves tid after := by
  refine ⟨hsecond.orderly, ?_, ?_, hsecond.gone⟩
  · intro frame hframe hdirty
    obtain ⟨hbefore, hother⟩ := hsecond.dirty frame hframe hdirty
    exact ⟨hfirst.dirty frame hbefore hdirty, hother⟩
  · intro page who hother hexclusive
    exact hsecond.exclusive page who hother (hfirst.exclusive page who hexclusive)

/-- What is not in the cache or the catalog does not matter. -/
theorem Keeps.congr (hkeeps : store.Keeps mid) (hpool : after.pool = mid.pool)
    (hcatalog : after.catalog.Sound) : store.Keeps after := by
  refine ⟨⟨⟨by rw [hpool]; exact hkeeps.orderly.sound.pool, hcatalog⟩, ?_⟩, ?_, ?_⟩
  · rw [hpool]
    exact hkeeps.orderly.locks
  · rw [hpool]
    exact hkeeps.dirty
  · rw [hpool]
    exact hkeeps.exclusive

theorem Leaves.congr (hleaves : store.Leaves tid mid) (hpool : after.pool = mid.pool)
    (hcatalog : after.catalog = mid.catalog) : store.Leaves tid after := by
  refine ⟨⟨⟨?_, ?_⟩, ?_⟩, ?_, ?_, ?_⟩
  · rw [hpool]
    exact hleaves.orderly.sound.pool
  · rw [hcatalog]
    exact hleaves.orderly.sound.catalog
  · rw [hpool]
    exact hleaves.orderly.locks
  · rw [hpool]
    exact hleaves.dirty
  · rw [hpool]
    exact hleaves.exclusive
  · rw [hpool]
    exact hleaves.gone

/-- Frames that leave the cache leave the others as they are. -/
theorem keeps_depart (horderly : store.Orderly) (leaves : Frame → Bool) :
    store.Keeps (store.withPool (store.pool.depart leaves)) :=
  ⟨⟨sound_withPool horderly.sound (Pool.sound_depart horderly.sound.pool leaves), horderly.locks⟩,
    fun _ hframe _ => (Pool.mem_depart.mp hframe).1, fun _ _ hexclusive => hexclusive⟩

/-- A frame may get a content that is clean. -/
theorem keeps_clean (horderly : store.Orderly) {frame : Frame}
    (hframe : frame ∈ store.pool.resident) {page : Page}
    (haddress : page.address = frame.page.address) (hclean : page.owner = none) :
    store.Keeps (store.withPool (store.pool.replace frame.stamp page)) := by
  refine ⟨⟨sound_withPool horderly.sound (Pool.sound_replace horderly.sound.pool hframe haddress),
    horderly.locks⟩, ?_, fun _ _ hexclusive => hexclusive⟩
  intro other hother hdirty
  rcases Pool.mem_replace.mp hother with ⟨hbefore, -⟩ | ⟨rfl, -⟩
  · exact hbefore
  · simp [hclean] at hdirty

/-! ## Getting pages -/

theorem locks_fetch (store : Store) (address : PageAddress) (latched : List Nat)
    (hsound : store.Sound) : (store.fetch address latched).2.pool.locks = store.pool.locks := by
  unfold fetch
  split
  · rfl
  · split
    · rfl
    · rename_i pool hmade
      have hlocks := (Pool.roomier_of_makeRoom hsound.pool hmade).locks
      split
      · exact hlocks
      · exact hlocks

/-- A page that is loaded is clean. -/
theorem dirty_fetch (hsound : store.Sound) (address : PageAddress) (latched : List Nat) :
    ∀ frame ∈ (store.fetch address latched).2.pool.resident, frame.page.owner.isSome = true →
      frame ∈ store.pool.resident := by
  unfold fetch
  split
  · exact fun _ hframe _ => hframe
  · split
    · exact fun _ hframe _ => hframe
    · rename_i pool hmade
      have hroom := Pool.roomier_of_makeRoom hsound.pool hmade
      split
      · exact fun frame hframe _ => hroom.kept frame hframe
      · rename_i page hread
        have hclean := (Catalog.of_filed? (Catalog.filed?_of_read hread)).owner
        intro frame hframe hdirty
        rcases List.mem_append.mp hframe with hframe | hframe
        · exact hroom.kept frame hframe
        · rw [List.mem_singleton.mp hframe] at hdirty
          simp [hclean] at hdirty

theorem address_of_fetch (hsound : store.Sound) {latched : List Nat} {frame : Frame}
    (hfetch : store.fetch address latched = (.ok frame, after)) : frame.page.address = address := by
  rcases of_fetch hfetch with ⟨hfind, -⟩ | ⟨-, pool, page, -, hread, rfl, -⟩
  · exact (hsound.pool.find?_eq_some_iff.mp hfind).2
  · exact address_of_read hread

theorem keeps_fetch (horderly : store.Orderly) (address : PageAddress) (latched : List Nat) :
    store.Keeps (store.fetch address latched).2 := by
  have hlocks := locks_fetch store address latched horderly.sound
  refine ⟨⟨(sound_fetch horderly.sound address latched).1, ?_⟩,
    dirty_fetch horderly.sound address latched, ?_⟩
  · rw [hlocks]
    exact horderly.locks
  · rw [hlocks]
    exact fun _ _ hexclusive => hexclusive

theorem keeps_granted {mode : LockMode} {locks : LockTable} (horderly : store.Orderly)
    (hgranted : store.pool.locks.Granted address tid mode locks) :
    store.Keeps (store.withLocks locks) :=
  ⟨⟨sound_withLocks horderly.sound locks, hgranted.sound⟩, fun _ hframe _ => hframe,
    hgranted.kept⟩

/-- To get a page changes none, and takes a lock from nobody. -/
theorem keeps_getPage (horderly : store.Orderly) (tid : TransactionId) (address : PageAddress)
    (access : Access) (latched : List Nat) :
    store.Keeps ((getPage tid address access latched).perform store).2 := by
  rw [perform_getPage]
  cases hacquire : store.pool.locks.acquire address tid access.lockMode with
  | error error => exact .refl horderly
  | ok locks =>
      have hgranted := keeps_granted horderly
        (LockTable.granted_of_acquire horderly.locks hacquire)
      exact hgranted.trans (keeps_fetch hgranted.orderly address latched)

/-- A cached page that a transaction may change. -/
structure Offers (after : Store) (tid : TransactionId) (frame : Frame) : Prop where
  cached : frame ∈ after.pool.resident
  exclusive : after.pool.locks.mode? frame.page.address tid = some .exclusive

theorem offers_of_getPage (horderly : store.Orderly) {frame : Frame}
    (hget : (getPage tid address .readWrite []).perform store = (.ok frame, after)) :
    after.Offers tid frame ∧ frame.page.address = address := by
  have hcached := (sound_getPage horderly.sound tid address .readWrite []).2 frame
  rw [hget] at hcached
  obtain ⟨locks, hacquire, hfetch⟩ := of_getPage hget
  have hgranted := LockTable.granted_of_acquire horderly.locks hacquire
  have hlocked : (store.withLocks locks).Sound := sound_withLocks horderly.sound locks
  have hlocks := locks_fetch (store.withLocks locks) address [] hlocked
  have haddress := address_of_fetch hlocked hfetch
  rw [hfetch] at hlocks
  refine ⟨⟨hcached rfl, ?_⟩, haddress⟩
  rw [hlocks, haddress]
  exact hgranted.exclusive rfl

/-! ## Rows -/

/-- A lock that was not there before may be given up again. -/
theorem Keeps.release (hkeeps : store.Keeps after)
    (hfree : store.pool.locks.holds address tid = false) :
    store.Keeps (after.withLocks (after.pool.locks.release address tid)) := by
  have hlocks := hkeeps.orderly.locks
  refine ⟨⟨sound_withLocks hkeeps.orderly.sound _, LockTable.sound_release hlocks address tid⟩,
    hkeeps.dirty, ?_⟩
  intro page who hexclusive
  show (after.pool.locks.release address tid).mode? page who = _
  have hother : ¬ (page = address ∧ who = tid) := by
    rintro ⟨rfl, rfl⟩
    rw [LockTable.holds_of_mode? hexclusive] at hfree
    exact absurd hfree (by simp)
  rw [LockTable.mode?_release hlocks, if_neg hother]
  exact hkeeps.exclusive page who hexclusive

theorem keeps_seek (horderly : store.Orderly) (tid : TransactionId) (table : Table)
    (count number : Nat) :
    store.Keeps (seek tid table count number store).2 ∧
      ∀ frame, (seek tid table count number store).1 = .ok (some frame) →
        (seek tid table count number store).2.Offers tid frame := by
  induction count generalizing store number with
  | zero => exact ⟨.refl horderly, fun frame hframe => absurd hframe (by simp [seek])⟩
  | succ count ih =>
      simp only [seek]
      generalize (⟨table.id, UInt32.ofNat number⟩ : PageAddress) = address
      have hkeeps := keeps_getPage horderly tid address .readWrite []
      cases hget : (getPage tid address .readWrite []).perform store with
      | mk result after =>
          rw [hget] at hkeeps
          cases result with
          | error error => exact ⟨hkeeps, fun frame hframe => absurd hframe (by simp)⟩
          | ok frame =>
              simp only
              split
              · refine ⟨hkeeps, ?_⟩
                intro found hfound
                obtain rfl := Option.some.inj (Except.ok.inj hfound)
                exact (offers_of_getPage horderly hget).1
              -- the lock on a full page goes, unless it was there before the search came to it
              · have hnext : store.Keeps (if store.pool.locks.holds address tid then after
                    else after.withLocks (after.pool.locks.release address tid)) := by
                  split
                  · exact hkeeps
                  · rename_i hfree
                    exact hkeeps.release (by simpa using hfree)
                obtain ⟨hrest, hoffers⟩ := ih hnext.orderly (number + 1)
                exact ⟨hnext.trans hrest, hoffers⟩

theorem keeps_room (horderly : store.Orderly) (tid : TransactionId) (table : Table) :
    store.Keeps (store.room tid table).2 ∧
      ∀ frame, (store.room tid table).1 = .ok frame →
        (store.room tid table).2.Offers tid frame := by
  obtain ⟨hkeeps, hoffers⟩ := keeps_seek horderly tid table (store.pageCount table).toNat 0
  unfold room
  revert hkeeps hoffers
  rcases seek tid table (store.pageCount table).toNat 0 store with ⟨result, mid⟩
  intro hkeeps hoffers
  cases result with
  | error error => exact ⟨hkeeps, fun frame hframe => absurd hframe (by simp)⟩
  | ok found =>
      cases found with
      | some frame =>
          refine ⟨hkeeps, ?_⟩
          intro other hother
          obtain rfl := Except.ok.inj hother
          exact hoffers frame rfl
      | none =>
          simp only [perform_growTable]
          cases table.appendPage mid.armed (mid.disk.content table.location) with
          | error error => exact ⟨hkeeps, fun frame hframe => absurd hframe (by simp)⟩
          | ok grown =>
              obtain ⟨address, content⟩ := grown
              have hgrown : store.Keeps
                  { mid with disk := mid.disk.write table.location content } :=
                hkeeps.congr rfl hkeeps.orderly.sound.catalog
              simp only
              refine ⟨hgrown.trans (keeps_getPage hgrown.orderly tid address .readWrite []), ?_⟩
              intro frame hframe
              exact (offers_of_getPage hgrown.orderly (Prod.ext hframe rfl)).1

/-- A page that is offered may be changed. -/
theorem Keeps.changes (hkeeps : store.Keeps mid) {frame : Frame} (hoffers : mid.Offers tid frame)
    {page : Page} (haddress : page.address = frame.page.address) :
    store.Changes tid frame.page.address (mid.withChange tid frame page) := by
  refine ⟨⟨sound_withChange hkeeps.orderly.sound hoffers.cached haddress, hkeeps.orderly.locks⟩,
    ?_, hkeeps.exclusive, hoffers.exclusive⟩
  intro other hother hdirty
  rcases Pool.mem_replace.mp hother with ⟨hbefore, -⟩ | ⟨rfl, -⟩
  · exact Or.inl (hkeeps.dirty other hbefore hdirty)
  · exact Or.inr ⟨haddress, rfl⟩

/-- An insert changes the page of the address that it gives back; one that fails changes none. -/
theorem changes_insertRow (horderly : store.Orderly) (tid : TransactionId) (id : TableId)
    (row : Row) :
    (∃ error, ((insertRow tid id row).perform store).1 = .error error ∧
      store.Keeps ((insertRow tid id row).perform store).2) ∨
    ∃ stored place, ((insertRow tid id row).perform store).1 = .ok stored ∧
      stored.address = some place ∧
      store.Changes tid place.page ((insertRow tid id row).perform store).2 := by
  rw [perform_insertRow]
  split
  · exact Or.inl ⟨_, rfl, .refl horderly⟩
  · rename_i table _
    split
    · obtain ⟨hkeeps, hoffers⟩ := keeps_room horderly tid table
      revert hkeeps hoffers
      rcases store.room tid table with ⟨result, mid⟩
      intro hkeeps hoffers
      cases result with
      | error error => exact Or.inl ⟨error, rfl, hkeeps⟩
      | ok frame =>
          simp only
          split
          · exact Or.inl ⟨_, rfl, hkeeps⟩
          · rename_i stored page hinsert
            obtain ⟨place, rfl, hinserted⟩ := Page.inserted_of_insert hinsert
            refine Or.inr ⟨_, place, rfl, rfl, ?_⟩
            rw [hinserted.onPage]
            apply hkeeps.changes (hoffers frame rfl)
            rw [hinserted.result]
            rfl
    · exact Or.inl ⟨_, rfl, .refl horderly⟩

/-- A delete changes the page that its row was on; one that fails changes none. -/
theorem changes_deleteRow (horderly : store.Orderly) (tid : TransactionId) (row : Row) :
    (∃ error, ((deleteRow tid row).perform store).1 = .error error ∧
      store.Keeps ((deleteRow tid row).perform store).2) ∨
    ∃ place, ((deleteRow tid row).perform store).1 = .ok () ∧ row.address = some place ∧
      store.Changes tid place.page ((deleteRow tid row).perform store).2 := by
  rw [perform_deleteRow]
  split
  · exact Or.inl ⟨_, rfl, .refl horderly⟩
  · rename_i place haddress
    split
    · exact Or.inl ⟨_, rfl, .refl horderly⟩
    · split
      · exact Or.inl ⟨_, rfl, .refl horderly⟩
      · have hkeeps := keeps_getPage horderly tid place.page .readWrite []
        cases hget : (getPage tid place.page .readWrite []).perform store with
        | mk result mid =>
            rw [hget] at hkeeps
            cases result with
            | error error => exact Or.inl ⟨error, rfl, hkeeps⟩
            | ok frame =>
                simp only
                split
                · exact Or.inl ⟨_, rfl, hkeeps⟩
                · rename_i page hdelete
                  obtain ⟨hoffers, hplace⟩ := offers_of_getPage horderly hget
                  obtain ⟨_, hdeleted⟩ := Page.deleted_of_delete hdelete
                  refine Or.inr ⟨place, rfl, haddress, ?_⟩
                  rw [← hplace]
                  apply hkeeps.changes hoffers
                  rw [hdeleted.result]
                  rfl

theorem keeps_scanPages (horderly : store.Orderly) (tid : TransactionId) (table : Table)
    (count number : Nat) : store.Keeps (scanPages tid table count number store).2 :=
  related_scanPages (fun before after => before.Orderly → before.Keeps after) (fun _ => .refl)
    (fun hfirst hsecond hstore => (hfirst hstore).trans (hsecond (hfirst hstore).orderly))
    (fun address _ hstore => keeps_getPage hstore tid address .readOnly [])
    table count number store horderly

/-! ## Flushing and restoring -/

/-- The page is not cached, or it is clean. -/
def CleanAt (store : Store) (address : PageAddress) : Prop :=
  ∀ frame ∈ store.pool.resident, frame.page.address = address → frame.page.owner = none

theorem cleanAt_of_find?_eq_none (hfind : store.pool.find? address = none) :
    store.CleanAt address := by
  intro frame hframe haddress
  have hmem : address ∈ store.pool.cached := List.mem_map.mpr ⟨frame, hframe, haddress⟩
  exact absurd hmem (Pool.not_mem_cached_of_find? hfind)

/-- A frame that got a clean content is clean. -/
theorem cleanAt_replace (hsound : store.Sound) {frame : Frame}
    (hfind : store.pool.find? address = some frame) {page : Page} (hclean : page.owner = none) :
    (store.withPool (store.pool.replace frame.stamp page)).CleanAt address := by
  obtain ⟨hframe, hplace⟩ := hsound.pool.find?_eq_some_iff.mp hfind
  intro other hother haddress
  rcases Pool.mem_replace.mp hother with ⟨hbefore, hstamp⟩ | ⟨rfl, -⟩
  · have hsame := hsound.pool.eq_of_address hbefore hframe (haddress.trans hplace.symm)
    rw [hsame] at hstamp
    exact absurd rfl hstamp
  · exact hclean

/-- A flush changes no page, and cleans its own if it succeeds. -/
theorem keeps_flushPage (horderly : store.Orderly) (address : PageAddress) :
    store.Keeps ((flushPage address).perform store).2 ∧
      (((flushPage address).perform store).1 = .ok () →
        ((flushPage address).perform store).2.CleanAt address) := by
  rcases flushPage_cases address store with ⟨result, hflush, hclean⟩ |
    ⟨error, owner, record, hflush⟩ | ⟨frame, owner, record, disk, hfind, -, -, hflush⟩
  · rw [hflush]
    refine ⟨.refl horderly, ?_⟩
    intro hok frame hframe haddress
    exact hclean hok frame (horderly.sound.pool.find?_eq_some_iff.mpr ⟨hframe, haddress⟩)
  · rw [hflush]
    exact ⟨(Keeps.refl horderly).congr rfl horderly.sound.catalog, by simp⟩
  · obtain ⟨hframe, -⟩ := horderly.sound.pool.find?_eq_some_iff.mp hfind
    have hsettled : store.Keeps
        (store.withPool (store.pool.replace frame.stamp frame.page.settled)) :=
      keeps_clean horderly hframe rfl rfl
    rw [hflush]
    exact ⟨hsettled.congr rfl horderly.sound.catalog,
      fun _ => cleanAt_replace horderly.sound hfind rfl⟩

/-- A restore changes no other page, and its own is clean if it succeeds. -/
theorem keeps_restorePage (horderly : store.Orderly) (address : PageAddress) :
    store.Keeps ((restorePage address).perform store).2 ∧
      (((restorePage address).perform store).1 = .ok () →
        ((restorePage address).perform store).2.CleanAt address) := by
  rw [perform_restorePage]
  split
  · rename_i hfind
    exact ⟨.refl horderly, fun _ => cleanAt_of_find?_eq_none hfind⟩
  · rename_i frame hfind
    split
    · exact ⟨.refl horderly, by simp⟩
    · rename_i page hread
      obtain ⟨hframe, haddress⟩ := horderly.sound.pool.find?_eq_some_iff.mp hfind
      have hclean := (Catalog.of_filed? (Catalog.filed?_of_read hread)).owner
      have hplace := (address_of_read hread).trans haddress.symm
      exact ⟨keeps_clean horderly hframe hplace hclean,
        fun _ => cleanAt_replace horderly.sound hfind hclean⟩

/-- What a walk over pages has cleaned stays clean. -/
theorem keeps_forM {work : PageAddress → Action Unit}
    (hwork : ∀ store : Store, store.Orderly → ∀ address,
      store.Keeps ((work address).perform store).2 ∧
        (((work address).perform store).1 = .ok () →
          ((work address).perform store).2.CleanAt address))
    (addresses : List PageAddress) (horderly : store.Orderly) :
    store.Keeps ((addresses.forM work).perform store).2 ∧
      (((addresses.forM work).perform store).1 = .ok () →
        ∀ address ∈ addresses, ((addresses.forM work).perform store).2.CleanAt address) := by
  induction addresses generalizing store with
  | nil => exact ⟨.refl horderly, fun _ address hmem => absurd hmem List.not_mem_nil⟩
  | cons address addresses ih =>
      rw [perform_forM_cons]
      have hfirst := hwork store horderly address
      revert hfirst
      rcases (work address).perform store with ⟨result, mid⟩
      rintro ⟨hkeeps, hclean⟩
      cases result with
      | error error => exact ⟨hkeeps, by simp⟩
      | ok _ =>
          obtain ⟨hrest, hcleaned⟩ := ih hkeeps.orderly
          refine ⟨hkeeps.trans hrest, ?_⟩
          intro hok other hother
          rcases List.mem_cons.mp hother with rfl | hother
          · intro frame hframe haddress
            by_contra hdirty
            have hbefore := hrest.dirty frame hframe (Option.isSome_iff_ne_none.mpr hdirty)
            exact hdirty (hclean rfl frame hbefore haddress)
          · exact hcleaned hok other hother

/-! ## Ends -/

/-- Flushes or restores pages in this order, and gives up the locks of `tid`. -/
def completeIn (order : List PageAddress) (tid : TransactionId) (commit : Bool) : Action Unit := do
  order.forM fun address => if commit then flushPage address else restorePage address
  modify fun store => store.withLocks (store.pool.locks.releaseAll tid)

theorem perform_completeIn (order : List PageAddress) (tid : TransactionId) (commit : Bool)
    (store : Store) :
    (completeIn order tid commit).perform store =
      match (order.forM fun address =>
          if commit then flushPage address else restorePage address).perform store with
      | (.error error, after) => (.error error, after)
      | (.ok (), after) => (.ok (), after.withLocks (after.pool.locks.releaseAll tid)) := by
  simp only [completeIn, perform_bind]
  rcases (List.forM _ _ : Action Unit).perform store with ⟨result, after⟩
  cases result with
  | error error => rfl
  | ok _ => rfl

theorem perform_complete_eq (tid : TransactionId) (commit : Bool) (store : Store) :
    (complete tid commit).perform store
      = (completeIn (store.pool.dirtiedBy tid) tid commit).perform store := by
  rw [perform_complete]
  exact (perform_completeIn (store.pool.dirtiedBy tid) tid commit store).symm

/-- The cached pages that a transaction has changed are those that end with it. -/
theorem mem_dirtiedBy_iff (hsound : store.Sound) {frame : Frame}
    (hframe : frame ∈ store.pool.resident) :
    frame.page.address ∈ store.pool.dirtiedBy tid ↔ frame.page.owner = some tid := by
  simp only [Pool.dirtiedBy, (perm_inOrder _ _).mem_iff, List.mem_map, List.mem_filter,
    decide_eq_true_eq]
  constructor
  · rintro ⟨other, ⟨hother, howner⟩, haddress⟩
    rw [← hsound.pool.eq_of_address hother hframe haddress]
    exact howner
  · exact fun howner => ⟨frame, ⟨hframe, howner⟩, rfl⟩

/-- A transaction that fails to end keeps its locks; one that ends has no changed page left. -/
theorem ends_completeIn (horderly : store.Orderly) {order : List PageAddress}
    (horder : order.Perm (store.pool.dirtiedBy tid)) (commit : Bool) :
    ((∃ error, ((completeIn order tid commit).perform store).1 = .error error) ∧
      store.Keeps ((completeIn order tid commit).perform store).2) ∨
    (((completeIn order tid commit).perform store).1 = .ok () ∧
      store.Leaves tid ((completeIn order tid commit).perform store).2) := by
  have hwork : ∀ store : Store, store.Orderly → ∀ address,
      store.Keeps ((if commit then flushPage address else restorePage address).perform store).2 ∧
        (((if commit then flushPage address else restorePage address).perform store).1 = .ok () →
          ((if commit then flushPage address else restorePage address).perform
            store).2.CleanAt address) := by
    intro store horderly address
    cases commit with
    | true => exact keeps_flushPage horderly address
    | false => exact keeps_restorePage horderly address
  have hwalk := keeps_forM hwork order horderly
  rw [perform_completeIn]
  revert hwalk
  rcases (List.forM _ _ : Action Unit).perform store with ⟨result, mid⟩
  rintro ⟨hkeeps, hclean⟩
  cases result with
  | error error => exact Or.inl ⟨⟨error, rfl⟩, hkeeps⟩
  | ok _ =>
      have hlocks := hkeeps.orderly.locks
      refine Or.inr ⟨rfl, ⟨sound_withLocks hkeeps.orderly.sound _,
        LockTable.sound_releaseAll hlocks tid⟩, ?_, ?_, LockTable.pagesOf_releaseAll _ tid⟩
      · intro frame hframe hdirty
        have hbefore := hkeeps.dirty frame hframe hdirty
        refine ⟨hbefore, ?_⟩
        -- a page of the transaction was among those that were worked off
        intro howner
        have hmem := (mem_dirtiedBy_iff horderly.sound hbefore).mpr howner
        have hcleaned := hclean rfl _ (horder.mem_iff.mpr hmem) frame hframe rfl
        rw [howner] at hcleaned
        exact absurd hcleaned (by simp)
      · intro page who hother hexclusive
        show (mid.pool.locks.releaseAll tid).mode? page who = _
        rw [LockTable.mode?_releaseAll hlocks, if_neg hother]
        exact hkeeps.exclusive page who hexclusive

theorem ends_finish (horderly : store.Orderly) (tid : TransactionId) (commit : Bool) :
    ((∃ error, ((finish tid commit).perform store).1 = .error error) ∧
      store.Keeps ((finish tid commit).perform store).2) ∨
    (((finish tid commit).perform store).1 = .ok () ∧
      store.Leaves tid ((finish tid commit).perform store).2) := by
  have hends := ends_completeIn horderly (.refl (store.pool.dirtiedBy tid)) commit
  rw [← perform_complete_eq] at hends
  rw [perform_finish]
  revert hends
  rcases (complete tid commit).perform store with ⟨result, mid⟩
  rintro (⟨⟨error, rfl⟩, hkeeps⟩ | ⟨rfl, hleaves⟩)
  · exact Or.inl ⟨⟨error, rfl⟩, hkeeps⟩
  · exact Or.inr ⟨rfl, hleaves.congr rfl rfl⟩

theorem ends_endWith (horderly : store.Orderly) (tid : TransactionId) (commit : Bool) :
    store.Keeps ((endWith tid commit).perform store).2 ∨
      store.Leaves tid ((endWith tid commit).perform store).2 := by
  have hfinish := ends_finish horderly tid commit
  rw [perform_endWith]
  revert hfinish
  rcases (finish tid commit).perform store with ⟨result, mid⟩
  rintro (⟨⟨error, rfl⟩, hkeeps⟩ | ⟨rfl, hleaves⟩)
  -- the transaction is aborted, and this may fail as well
  · rcases ends_finish hkeeps.orderly tid false with ⟨-, hlast⟩ | ⟨-, hleaves⟩
    · exact Or.inl (hkeeps.trans hlast)
    · exact Or.inr (hkeeps.leaves hleaves)
  · exact Or.inr hleaves

/-! ## The invariant -/

end Store

/-- The end of a transaction, which has come once it has no lock left. -/
def Event.ending (tid : TransactionId) (commit : Bool) (after : Store) : Event :=
  if after.pool.locks.pagesOf tid = [] then (if commit then .committed tid else .dropped tid)
  else .quiet

/-- The operation gives up a lock and does nothing else. -/
def Operation.isRelease : Operation → Bool
  | .release _ _ => true
  | _ => false

namespace Store

open HeapStore.Action

variable {store after : Store} {ledger : Ledger} {tid : TransactionId} {address : PageAddress}

/-- What an operation means for the transactions.  A transaction whose end fails half-way keeps its
locks, and its changes are still not committed. -/
def event (store : Store) (operation : Operation) : Event :=
  match operation with
  | .commit tid => .ending tid (store.answer operation).isOk (store.step operation).2
  | .abort tid => .ending tid false (store.step operation).2
  | .abandon tid => .ending tid false (store.step operation).2
  | .complete tid commit => .ending tid commit (store.step operation).2
  | _ => Event.of operation (store.answer operation)

/-- A cached page with changes, and every page with changes that are not committed, is locked by
its transaction exclusively. -/
structure Exclusive (store : Store) (ledger : Ledger) : Prop where
  orderly : store.Orderly
  dirty : ∀ frame ∈ store.pool.resident, ∀ tid, frame.page.owner = some tid →
    store.pool.locks.mode? frame.page.address tid = some .exclusive
  pending : ∀ tid, ∀ edit ∈ ledger.pending tid,
    store.pool.locks.mode? edit.place.page tid = some .exclusive

theorem Exclusive.of_keeps (hexclusive : store.Exclusive ledger) (hkeeps : store.Keeps after) :
    after.Exclusive ledger := by
  refine ⟨hkeeps.orderly, ?_, ?_⟩
  · intro frame hframe tid howner
    have hbefore := hkeeps.dirty frame hframe (by simp [howner])
    exact hkeeps.exclusive _ tid (hexclusive.dirty frame hbefore tid howner)
  · intro tid edit hedit
    exact hkeeps.exclusive _ tid (hexclusive.pending tid edit hedit)

theorem Exclusive.of_changes (hexclusive : store.Exclusive ledger) {edit : Edit}
    (hchanges : store.Changes tid edit.place.page after) :
    after.Exclusive (ledger.note (.edited tid edit)) := by
  refine ⟨hchanges.orderly, ?_, ?_⟩
  · intro frame hframe who howner
    rcases hchanges.dirty frame hframe (by simp [howner]) with hbefore | ⟨haddress, hmine⟩
    · exact hchanges.exclusive _ who (hexclusive.dirty frame hbefore who howner)
    · rw [haddress, ← Option.some.inj (hmine.symm.trans howner)]
      exact hchanges.locked
  · intro who later hlater
    by_cases hwho : who = tid
    · subst hwho
      simp only [Ledger.note, Ledger.withPending, if_true, List.mem_append,
        List.mem_singleton] at hlater
      rcases hlater with hlater | rfl
      · exact hchanges.exclusive _ who (hexclusive.pending who later hlater)
      · exact hchanges.locked
    · simp only [Ledger.note, Ledger.withPending, if_neg hwho] at hlater
      exact hchanges.exclusive _ who (hexclusive.pending who later hlater)

/-- A transaction that has ended has no changes any more; those of the others stay. -/
theorem pending_ending {commit : Bool} {who : TransactionId} {edit : Edit}
    (hedit : edit ∈ (ledger.note (.ending tid commit after)).pending who) :
    edit ∈ ledger.pending who ∧ (after.pool.locks.pagesOf tid = [] → who ≠ tid) := by
  simp only [Event.ending] at hedit
  split at hedit
  · have hdropped : edit ∈ (ledger.withPending tid []).pending who := by
      cases commit with
      | true => exact hedit
      | false => exact hedit
    by_cases hwho : who = tid
    · simp [Ledger.withPending, hwho] at hdropped
    · simp only [Ledger.withPending, if_neg hwho] at hdropped
      exact ⟨hdropped, fun _ => hwho⟩
  · rename_i hheld
    exact ⟨hedit, fun hgone => absurd hgone hheld⟩

theorem Exclusive.of_ending (hexclusive : store.Exclusive ledger)
    (hends : store.Keeps after ∨ store.Leaves tid after) (commit : Bool) :
    after.Exclusive (ledger.note (.ending tid commit after)) := by
  rcases hends with hkeeps | hleaves
  · have hstill := hexclusive.of_keeps hkeeps
    exact ⟨hstill.orderly, hstill.dirty,
      fun who edit hedit => hstill.pending who edit (pending_ending hedit).1⟩
  · refine ⟨hleaves.orderly, ?_, ?_⟩
    · intro frame hframe who howner
      obtain ⟨hbefore, hother⟩ := hleaves.dirty frame hframe (by simp [howner])
      have hwho : who ≠ tid := fun heq => hother (by rw [howner, heq])
      exact hleaves.exclusive _ who hwho (hexclusive.dirty frame hbefore who howner)
    · intro who edit hedit
      obtain ⟨hpending, hwho⟩ := pending_ending hedit
      exact hleaves.exclusive _ who (hwho hleaves.gone) (hexclusive.pending who edit hpending)

/-- What an operation does to a store, by what it means for the transactions. -/
inductive Does (store after : Store) : Event → Prop
  | keeps (hkeeps : store.Keeps after) : Does store after .quiet
  | changes {tid : TransactionId} {edit : Edit}
      (hchanges : store.Changes tid edit.place.page after) : Does store after (.edited tid edit)
  | ends {tid : TransactionId} (hends : store.Keeps after ∨ store.Leaves tid after)
      (commit : Bool) : Does store after (.ending tid commit after)

theorem Does.orderly {event : Event} (hdoes : store.Does after event) : after.Orderly := by
  cases hdoes with
  | keeps hkeeps => exact hkeeps.orderly
  | changes hchanges => exact hchanges.orderly
  | ends hends commit => exact hends.elim (·.orderly) (·.orderly)

theorem does_step (horderly : store.Orderly) {operation : Operation}
    (hkeeps : operation.isRelease = false) :
    store.Does (store.step operation).2 (store.event operation) := by
  -- most operations change no page and take no exclusive lock from anybody
  have hquiet : store.event operation = .quiet → store.Keeps (store.step operation).2 →
      store.Does (store.step operation).2 (store.event operation) := by
    intro hevent hstep
    rw [hevent]
    exact .keeps hstep
  have hpool : store.event operation = .quiet → (store.step operation).2.pool = store.pool →
      store.Does (store.step operation).2 (store.event operation) := by
    intro hevent hsame
    exact hquiet hevent ((Keeps.refl horderly).congr hsame
      (sound_step horderly.sound operation).catalog)
  have hdone : ∀ action : Action Unit,
      ((action *> pure Reply.done).perform store).2 = (action.perform store).2 := by
    intro action
    rw [perform_seqRight_pure]
  cases operation with
  | begin => exact hpool rfl rfl
  | getPage tid address access latched =>
      refine hquiet rfl ?_
      show store.Keeps (Action.perform (Reply.frame <$> _) store).2
      rw [perform_map]
      exact keeps_getPage horderly tid address access latched
  | insert tid id row =>
      rcases changes_insertRow horderly tid id row with
        ⟨error, hresult, hkeeps⟩ | ⟨stored, place, hresult, haddress, hchanges⟩
      · refine hquiet ?_ (by rw [step_insert]; exact hkeeps)
        simp [event, answer, step_insert, hresult, Except.map, Event.of]
      · have hevent : store.event (.insert tid id row)
            = .edited tid ⟨place, some stored.fields⟩ := by
          simp [event, answer, step_insert, hresult, Except.map, Reply.answer, Event.of, haddress]
        rw [hevent, step_insert]
        exact .changes hchanges
  | delete tid row =>
      rcases changes_deleteRow horderly tid row with
        ⟨error, hresult, hkeeps⟩ | ⟨place, hresult, haddress, hchanges⟩
      · refine hquiet ?_ (by rw [step_delete]; exact hkeeps)
        simp [event, answer, step_delete, hresult, Except.map, Event.of]
      · have hevent : store.event (.delete tid row) = .edited tid ⟨place, none⟩ := by
          simp [event, answer, step_delete, hresult, Except.map, Event.of, haddress]
        rw [hevent, step_delete]
        exact .changes hchanges
  | scan tid id =>
      refine hquiet rfl ?_
      show store.Keeps (Action.perform (Reply.found <$> _) store).2
      rw [perform_map, perform_scan]
      split
      · exact .refl horderly
      · exact keeps_scanPages horderly tid _ _ 0
  | commit tid =>
      refine .ends ?_ _
      have hends := ends_endWith horderly tid true
      rw [← hdone] at hends
      exact hends
  | abort tid =>
      refine .ends ?_ _
      have hends := ends_endWith horderly tid false
      rw [← hdone] at hends
      exact hends
  | abandon tid =>
      refine .ends ?_ _
      show store.Keeps (Action.perform (abandon tid *> pure Reply.done) store).2 ∨
        store.Leaves tid (Action.perform (abandon tid *> pure Reply.done) store).2
      rw [hdone, perform_abandon]
      exact (ends_finish horderly tid false).imp (·.2) (·.2)
  | complete tid commit =>
      refine .ends ?_ commit
      show store.Keeps (Action.perform (complete tid commit *> pure Reply.done) store).2 ∨
        store.Leaves tid (Action.perform (complete tid commit *> pure Reply.done) store).2
      rw [hdone, perform_complete_eq]
      exact (ends_completeIn horderly (.refl _) commit).imp (·.2) (·.2)
  | release tid address => exact absurd hkeeps (by simp [Operation.isRelease])
  | evict latched =>
      refine hquiet rfl ?_
      show store.Keeps (Action.perform (evictPage latched *> pure Reply.done) store).2
      rw [hdone, perform_evictPage]
      rcases store.pool.evict_cases latched with ⟨victim, -, -, hevict⟩ | ⟨error, hevict, -⟩
      · rw [hevict]
        exact keeps_depart horderly _
      · rw [hevict]
        exact .refl horderly
  | discard address => exact hquiet rfl (keeps_depart horderly _)
  | flushPage address =>
      refine hquiet rfl ?_
      show store.Keeps (Action.perform (flushPage address *> pure Reply.done) store).2
      rw [hdone]
      exact (keeps_flushPage horderly address).1
  | flushPagesOf tid =>
      refine hquiet rfl ?_
      show store.Keeps (Action.perform (flushPagesOf tid *> pure Reply.done) store).2
      rw [hdone]
      exact (keeps_forM (fun _ h address => keeps_flushPage h address) _ horderly).1
  | flushAll =>
      refine hquiet rfl ?_
      show store.Keeps (Action.perform (flushAll *> pure Reply.done) store).2
      rw [hdone]
      exact (keeps_forM (fun _ h address => keeps_flushPage h address) _ horderly).1
  | openTable path name schema primaryKey pageSize =>
      exact hpool rfl (pool_of_registers store rfl)
  | loadSchema path => exact hpool rfl (pool_of_registers store rfl)
  | clearCatalog => exact hpool rfl rfl
  | enable site => exact hpool rfl rfl
  | disable site => exact hpool rfl rfl
  | disarm => exact hpool rfl rfl

/-- Every operation but `release` keeps changed pages locked. -/
theorem exclusive_step (hexclusive : store.Exclusive ledger) {operation : Operation}
    (hkeeps : operation.isRelease = false) :
    (store.step operation).2.Exclusive (ledger.note (store.event operation)) := by
  have hdoes := does_step hexclusive.orderly hkeeps
  revert hdoes
  generalize store.event operation = event
  intro hdoes
  cases hdoes with
  | keeps hkeeps => exact hexclusive.of_keeps hkeeps
  | changes hchanges => exact hexclusive.of_changes hchanges
  | ends hends commit => exact hexclusive.of_ending hends commit

/-- Every operation leaves an orderly store behind. -/
theorem orderly_step (horderly : store.Orderly) (operation : Operation) :
    (store.step operation).2.Orderly := by
  cases hrelease : operation.isRelease with
  | false => exact (does_step horderly hrelease).orderly
  | true =>
      cases operation with
      | release tid address =>
          exact ⟨sound_withLocks horderly.sound _,
            LockTable.sound_release horderly.locks address tid⟩
      | _ => exact absurd hrelease (by simp [Operation.isRelease])

/-! ## Pages of others -/

/-- A page is as it was, in the cache and, if its table is not where the log is, in its file. -/
structure Spares (store : Store) (address : PageAddress) (after : Store) : Prop where
  cached : after.pool.find? address = store.pool.find? address
  catalog : after.catalog = store.catalog
  location : after.log.location = store.log.location
  filed : store.catalog.Apart store.log.location → ∀ table,
    store.catalog.table address.table = .ok table →
      after.placeOf table address.number = store.placeOf table address.number

theorem Spares.refl (store : Store) (address : PageAddress) : store.Spares address store :=
  ⟨rfl, rfl, rfl, fun _ _ _ => rfl⟩

theorem Spares.trans {mid : Store} (hfirst : store.Spares address mid)
    (hsecond : mid.Spares address after) : store.Spares address after := by
  refine ⟨hsecond.cached.trans hfirst.cached, hsecond.catalog.trans hfirst.catalog,
    hsecond.location.trans hfirst.location, ?_⟩
  intro hapart table htable
  rw [hsecond.filed (by rw [hfirst.catalog, hfirst.location]; exact hapart) table
    (by rw [hfirst.catalog, htable])]
  exact hfirst.filed hapart table htable

/-- A log record is written to no table. -/
theorem spares_of_onlyLogged (hlogged : store.OnlyLogged after)
    (hcached : after.pool.find? address = store.pool.find? address)
    (hcatalog : after.catalog = store.catalog) : store.Spares address after := by
  refine ⟨hcached, hcatalog, hlogged.location, ?_⟩
  intro hapart table htable
  simp only [placeOf, tableContent, hlogged.files table.location (hapart.of_table htable)]

theorem spares_flushPage (hsound : store.Sound) {other : PageAddress} (hother : address ≠ other) :
    store.Spares address ((flushPage other).perform store).2 := by
  rcases flushPage_cases other store with ⟨result, hflush, -⟩ | ⟨error, owner, record, hflush⟩ |
    ⟨frame, owner, record, disk, hfind, howner, hwrite, hflush⟩
  · rw [hflush]
    exact .refl store address
  · rw [hflush]
    exact spares_of_onlyLogged (onlyLogged_logged store owner record) rfl rfl
  · obtain ⟨hframe, haddress⟩ := hsound.pool.find?_eq_some_iff.mp hfind
    have hplace : address ≠ frame.page.address := by rwa [haddress]
    refine ⟨?_, by rw [hflush]; rfl, by rw [hflush]; rfl, ?_⟩
    · rw [hflush]
      exact hsound.pool.find?_replace_other hframe rfl hplace
    · intro hapart table htable
      obtain ⟨_, _, hflushed⟩ := flushed_of_ok hsound hapart hfind howner
        (Prod.ext (by rw [hflush]) rfl)
      exact hflushed.slice_other hsound hapart hother htable

theorem spares_restorePage (hsound : store.Sound) {other : PageAddress} (hother : address ≠ other) :
    store.Spares address ((restorePage other).perform store).2 := by
  rw [perform_restorePage]
  split
  · exact .refl store address
  · rename_i frame hfind
    split
    · exact .refl store address
    · rename_i page hread
      obtain ⟨hframe, haddress⟩ := hsound.pool.find?_eq_some_iff.mp hfind
      have hplace := (address_of_read hread).trans haddress.symm
      refine ⟨hsound.pool.find?_replace_other hframe hplace (by rwa [haddress]), rfl, rfl, ?_⟩
      exact fun _ _ _ => rfl

/-- The end of a transaction changes no page that is not its own. -/
theorem spares_completeIn (hsound : store.Sound) {order : List PageAddress}
    (hout : address ∉ order) (tid : TransactionId) (commit : Bool) :
    store.Spares address ((completeIn order tid commit).perform store).2 := by
  have hwalk : store.Spares address ((order.forM fun address =>
      if commit then flushPage address else restorePage address).perform store).2 := by
    refine (related_forM
      (fun before after => before.Sound → before.Spares address after ∧ after.Sound)
      (fun store hstore => ⟨.refl store address, hstore⟩) ?_ ?_ store hsound).1
    · intro first mid last hfirst hsecond hstore
      obtain ⟨hspares, hmid⟩ := hfirst hstore
      exact ⟨hspares.trans (hsecond hmid).1, (hsecond hmid).2⟩
    · intro other hmem store hstore
      have hother : address ≠ other := fun heq => hout (heq ▸ hmem)
      cases commit with
      | true => exact ⟨spares_flushPage hstore hother, sound_flushPage hstore other⟩
      | false => exact ⟨spares_restorePage hstore hother, sound_restorePage hstore other⟩
  rw [perform_completeIn]
  revert hwalk
  rcases (List.forM _ _ : Action Unit).perform store with ⟨result, mid⟩
  intro hspares
  cases result with
  | error error => exact hspares
  | ok _ => exact hspares.trans ⟨rfl, rfl, rfl, fun _ _ _ => rfl⟩

/-! ## Stores that come about -/

/-- A store that was opened and then worked on, with the changes of each transaction that are not
committed.  Every operation may come but `release`.  When a transaction ends, its pages may come in
any order: the record that it ends with is `logged`, and a commit that fails is `completed` twice.
Flushes of several pages in another order are single flushes. -/
inductive Worked : Store → Ledger → Prop
  | opened {store : Store} (hopened : Opened store) : Worked store .empty
  | stepped {store : Store} {ledger : Ledger} (hworked : Worked store ledger)
      {operation : Operation} (hkeeps : operation.isRelease = false) :
      Worked (store.step operation).2 (ledger.note (store.event operation))
  | completed {store : Store} {ledger : Ledger} (hworked : Worked store ledger)
      {tid : TransactionId} {order : List PageAddress}
      (horder : order.Perm (store.pool.dirtiedBy tid)) (commit : Bool) :
      Worked ((completeIn order tid commit).perform store).2
        (ledger.note (.ending tid commit ((completeIn order tid commit).perform store).2))
  | logged {store : Store} {ledger : Ledger} (hworked : Worked store ledger) (tid : TransactionId)
      (record : LogRecord) : Worked (store.logged tid record) ledger

theorem Fresh.exclusive (hfresh : store.Fresh) : store.Exclusive .empty := by
  refine ⟨⟨hfresh.sound, ?_⟩, ?_, ?_⟩
  · rw [hfresh.locks]
    exact List.nodup_nil
  · intro frame hframe
    rw [hfresh.resident] at hframe
    exact absurd hframe List.not_mem_nil
  · exact fun _ _ hedit => absurd hedit List.not_mem_nil

theorem Reached.orderly (hreached : Reached store) : store.Orderly := by
  induction hreached with
  | opened hopen => exact (fresh_of_openAt hopen).exclusive.orderly
  | stepped _ operation ih => exact orderly_step ih operation

theorem Worked.exclusive (hworked : Worked store ledger) : store.Exclusive ledger := by
  induction hworked with
  | opened hopened => exact hopened.fresh.exclusive
  | stepped _ hkeeps ih => exact exclusive_step ih hkeeps
  | completed _ horder commit ih =>
      exact ih.of_ending ((ends_completeIn ih.orderly horder commit).imp (·.2) (·.2)) commit
  | logged _ tid record ih =>
      exact ih.of_keeps ((Keeps.refl ih.orderly).congr rfl ih.orderly.sound.catalog)

/-- The ledger after a run. -/
def workedOff (store : Store) (ledger : Ledger) : List Operation → Ledger
  | [] => ledger
  | operation :: operations =>
    (store.step operation).2.workedOff (ledger.note (store.event operation)) operations

theorem Worked.run (operations : List Operation) (hworked : Worked store ledger)
    (hkeeps : ∀ operation ∈ operations, operation.isRelease = false) :
    Worked (store.run operations) (store.workedOff ledger operations) := by
  induction operations generalizing store ledger with
  | nil => exact hworked
  | cons operation operations ih =>
      exact ih (hworked.stepped (hkeeps operation List.mem_cons_self))
        fun later hlater => hkeeps later (List.mem_cons_of_mem operation hlater)

/-- What the locks say of the changes of transactions. -/
structure DirtyLocked (store : Store) (ledger : Ledger) : Prop where
  /-- A cached page that is dirty for a transaction is locked by it alone, exclusively. -/
  holders : ∀ frame ∈ store.pool.resident, ∀ tid, frame.page.owner = some tid →
    store.pool.locks.holders frame.page.address = [(tid, .exclusive)]
  /-- So is a page with changes that are not committed, also after it was flushed or dropped. -/
  pending : ∀ tid, ∀ edit ∈ ledger.pending tid,
    store.pool.locks.holders edit.place.page = [(tid, .exclusive)]
  /-- A page that is dirty for one transaction has no such changes of another. -/
  unmixed : ∀ frame ∈ store.pool.resident, ∀ tid, frame.page.owner = some tid →
    ∀ other, ∀ edit ∈ ledger.pending other, edit.place.page = frame.page.address → other = tid
  /-- No page at all has such changes of two transactions. -/
  separate : ∀ tid other, ∀ edit ∈ ledger.pending tid, ∀ later ∈ ledger.pending other,
    edit.place.page = later.place.page → tid = other
  /-- The end of a transaction, whether it succeeds or not, leaves the pages of others alone. -/
  spared : ∀ frame ∈ store.pool.resident, ∀ tid, frame.page.owner = some tid →
    ∀ other, other ≠ tid → ∀ order, order.Perm (store.pool.dirtiedBy other) → ∀ commit,
      store.Spares frame.page.address ((completeIn order other commit).perform store).2

/-- Whatever is done to a store without `release`: a page that a transaction has changed is locked
by it alone, in exclusive mode, and no page has changes of two transactions that are not committed.
`complete` takes its pages in the order of their addresses, and no order makes it change a page
that another transaction has changed. -/
theorem dirty_pages_locked (hworked : Worked store ledger) :
    store.DirtyLocked ledger ∧
      ∀ tid commit, (complete tid commit).perform store
        = (completeIn (store.pool.dirtiedBy tid) tid commit).perform store := by
  have hexclusive := hworked.exclusive
  -- an exclusive lock has one holder, so two transactions with one on a page are the same
  have hsame : ∀ {page : PageAddress} {tid other : TransactionId},
      store.pool.locks.mode? page tid = some .exclusive →
      store.pool.locks.mode? page other = some .exclusive → other = tid :=
    fun htid hother => LockTable.alone htid (LockTable.holds_of_mode? hother)
  refine ⟨⟨?_, ?_, ?_, ?_, ?_⟩, fun tid commit => perform_complete_eq tid commit store⟩
  · intro frame hframe tid howner
    exact LockTable.holders_of_exclusive (hexclusive.dirty frame hframe tid howner)
  · intro tid edit hedit
    exact LockTable.holders_of_exclusive (hexclusive.pending tid edit hedit)
  · intro frame hframe tid howner other edit hedit hpage
    have hother := hexclusive.pending other edit hedit
    rw [hpage] at hother
    exact hsame (hexclusive.dirty frame hframe tid howner) hother
  · intro tid other edit hedit later hlater hpage
    have htid := hexclusive.pending tid edit hedit
    rw [hpage] at htid
    exact hsame (hexclusive.pending other later hlater) htid
  · intro frame hframe tid howner other hother order horder commit
    apply spares_completeIn hexclusive.orderly.sound
    intro hmem
    have hmine := (mem_dirtiedBy_iff hexclusive.orderly.sound hframe).mp (horder.mem_iff.mp hmem)
    exact hother (Option.some.inj (hmine.symm.trans howner))

/-- An end that a failpoint stops leaves the page of its transaction dirty. -/
theorem dirty_pages_locked_sample :
    let operations := [.begin, .insert 1 sampleTable (sampleRow 7), .enable flushAfterForce,
      .complete 1 true, .begin, .insert 2 sampleTable (sampleRow 8)]
    (sample.run operations).pool.dirtiedBy 1 = [⟨sampleTable, 0⟩] ∧
      (sample.run operations).DirtyLocked (sample.workedOff .empty operations) ∧
      ∀ tid commit, (complete tid commit).perform (sample.run operations)
        = (completeIn ((sample.run operations).pool.dirtiedBy tid) tid commit).perform
          (sample.run operations) :=
  ⟨by decide +kernel, dirty_pages_locked
    ((Worked.opened opened_sample).run _ (by simp [Operation.isRelease]))⟩

end Store

end HeapStore
