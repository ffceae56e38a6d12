import HeapStore.Proofs.Coherence
import HeapStore.Proofs.Invariant

/-!
# What a failed commit leaves in the files

A commit flushes the pages of its transaction one by one.  If one flush fails, those before it have
reached their files, and the abort that follows reads the pages back as they are there.  So a
failed commit leaves the files as they were exactly if every page that was flushed before the
failure was in its file already (`failed_commit`), whatever the order of the flushes and whatever
made one of them fail.  `failed_commit_writes` is a commit that fails and writes a page.
-/

namespace HeapStore

namespace Store

open HeapStore.Action

variable {store after last : Store} {tid : TransactionId} {address : PageAddress}

/-! ## Files and log -/

/-- The files are the same but for the log. -/
def SameFiles (store after : Store) : Prop :=
  ∀ location, location ≠ store.log.location →
    (after.disk.content location).toBytes = (store.disk.content location).toBytes

/-- No file but the log was written, and the log is still the same file. -/
structure OnlyLogged (store after : Store) : Prop where
  location : after.log.location = store.log.location
  files : ∀ location, location ≠ store.log.location →
    after.disk.content location = store.disk.content location

theorem OnlyLogged.refl (store : Store) : store.OnlyLogged store :=
  ⟨rfl, fun _ _ => rfl⟩

theorem OnlyLogged.trans (hfirst : store.OnlyLogged after) (hsecond : after.OnlyLogged last) :
    store.OnlyLogged last := by
  refine ⟨hsecond.location.trans hfirst.location, ?_⟩
  intro location hlocation
  rw [hsecond.files location (by rw [hfirst.location]; exact hlocation)]
  exact hfirst.files location hlocation

theorem OnlyLogged.sameFiles_iff (hlogged : after.OnlyLogged last)
    (hlocation : after.log.location = store.log.location) :
    store.SameFiles last ↔ store.SameFiles after := by
  have hfiles : ∀ location, location ≠ store.log.location →
      last.disk.content location = after.disk.content location :=
    fun location hne => hlogged.files location (by rw [hlocation]; exact hne)
  constructor
  · intro hsame location hne
    rw [← hfiles location hne]
    exact hsame location hne
  · intro hsame location hne
    rw [hfiles location hne]
    exact hsame location hne

theorem onlyLogged_logged (store : Store) (tid : TransactionId) (record : LogRecord) :
    store.OnlyLogged (store.logged tid record) :=
  ⟨rfl, fun _ hlocation => Log.content_after _ _ _ _ hlocation⟩

theorem onlyLogged_restorePage (address : PageAddress) (store : Store) :
    store.OnlyLogged ((restorePage address).perform store).2 := by
  rw [perform_restorePage]
  split
  · exact .refl store
  · split
    · exact .refl store
    · exact ⟨rfl, fun _ _ => rfl⟩

theorem onlyLogged_forM {work : PageAddress → Action Unit}
    (hwork : ∀ address store, OnlyLogged store ((work address).perform store).2)
    (addresses : List PageAddress) (store : Store) :
    store.OnlyLogged ((addresses.forM work).perform store).2 :=
  related_forM OnlyLogged .refl .trans (fun address _ => hwork address) store

/-- An abort writes nothing but the log. -/
theorem onlyLogged_abort (tid : TransactionId) (store : Store) :
    store.OnlyLogged ((finish tid false).perform store).2 := by
  have hrestored := onlyLogged_forM onlyLogged_restorePage (store.pool.dirtiedBy tid) store
  rw [perform_finish, perform_complete]
  simp only [Bool.false_eq_true, if_false]
  revert hrestored
  rcases ((store.pool.dirtiedBy tid).forM restorePage).perform store with ⟨result, after⟩
  intro hrestored
  cases result with
  | error error => exact hrestored
  | ok _ =>
      have hreleased : store.OnlyLogged (after.withLocks (after.pool.locks.releaseAll tid)) :=
        ⟨hrestored.location, hrestored.files⟩
      exact hreleased.trans (onlyLogged_logged _ tid _)

/-- A flush that fails writes nothing but the log. -/
theorem onlyLogged_of_error {error : StoreError}
    (hflush : (flushPage address).perform store = (.error error, after)) :
    store.OnlyLogged after := by
  rcases flushPage_cases address store with ⟨result, hcase, -⟩ | ⟨cause, owner, record, hcase⟩ |
    ⟨frame, owner, record, disk, -, -, -, hcase⟩
  · rw [hcase] at hflush
    rw [← (Prod.mk.inj hflush).2]
    exact .refl store
  · rw [hcase] at hflush
    rw [← (Prod.mk.inj hflush).2]
    exact onlyLogged_logged store owner record
  · rw [hcase] at hflush
    exact absurd (Prod.mk.inj hflush).1 (by simp)

/-! ## Flushing -/

/-- The page is cached and changed. -/
def Dirty (store : Store) (address : PageAddress) : Prop :=
  ∃ frame owner, store.pool.find? address = some frame ∧ frame.page.owner = some owner

/-- The file of its table has the bytes of the cached page in their place. -/
def InFile (store : Store) (address : PageAddress) : Prop :=
  ∃ frame table, store.pool.find? address = some frame ∧
    store.catalog.table address.table = .ok table ∧
    (store.tableContent table).slice (table.offset address.number) table.pageSize
      = frame.page.bytes

/-- What the flush of a changed page does, when it succeeds. -/
structure Flushed (store : Store) (address : PageAddress) (frame : Frame) (table : Table)
    (content : Content) (after : Store) : Prop where
  registered : store.catalog.table address.table = .ok table
  written : table.Written (store.tableContent table) address.number frame.page.bytes content
  catalog : after.catalog = store.catalog
  pool : after.pool = store.pool.replace frame.stamp frame.page.settled
  location : after.log.location = store.log.location
  files : ∀ location, location ≠ store.log.location →
    after.disk.content location =
      if location = table.location then content else store.disk.content location

theorem flushed_of_ok (hsound : store.Sound) (hapart : store.catalog.Apart store.log.location)
    {frame : Frame} {owner : TransactionId} (hfind : store.pool.find? address = some frame)
    (howner : frame.page.owner = some owner)
    (hflush : (flushPage address).perform store = (.ok (), after)) :
    ∃ table content, store.Flushed address frame table content after := by
  have haddress : frame.page.address = address := (hsound.pool.find?_eq_some_iff.mp hfind).2
  rcases flushPage_cases address store with ⟨result, hcase, hclean⟩ |
    ⟨error, writer, record, hcase⟩ | ⟨found, writer, record, disk, hfound, -, hwrite, hcase⟩
  · rw [hcase] at hflush
    exact absurd (hclean (Prod.mk.inj hflush).1 frame hfind) (by simp [howner])
  · rw [hcase] at hflush
    exact absurd (Prod.mk.inj hflush).1 (by simp)
  · obtain rfl := Option.some.inj (hfind.symm.trans hfound)
    rw [hcase] at hflush
    obtain rfl := (Prod.mk.inj hflush).2
    have hlogged := onlyLogged_logged store writer record
    obtain ⟨-, -, table, content, htable, hwritten, rfl⟩ := Catalog.of_write hwrite
    rw [haddress] at htable hwritten
    have hfile : table.location ≠ store.log.location := hapart.of_table htable
    refine ⟨table, content, htable, ?_, rfl, rfl, rfl, ?_⟩
    · rw [hlogged.files table.location hfile] at hwritten
      exact hwritten
    · intro location hlocation
      have hroot := hsound.catalog.location_of_table htable
      show ((store.logged writer record).disk.write table.location content).content location = _
      rw [Disk.content_write _ hroot]
      split
      · rfl
      · exact hlogged.files location hlocation

theorem Flushed.sound {frame : Frame} {table : Table} {content : Content}
    (hflushed : store.Flushed address frame table content after) (hsound : store.Sound)
    (hframe : frame ∈ store.pool.resident) : after.Sound := by
  refine ⟨?_, by rw [hflushed.catalog]; exact hsound.catalog⟩
  rw [hflushed.pool]
  exact Pool.sound_replace hsound.pool hframe rfl

/-- Other cached pages stay as they are. -/
theorem Flushed.find?_other {frame : Frame} {table : Table} {content : Content}
    (hflushed : store.Flushed address frame table content after) (hsound : store.Sound)
    (hfind : store.pool.find? address = some frame) {other : PageAddress} {kept : Frame}
    (hother : other ≠ address) (hkept : store.pool.find? other = some kept) :
    after.pool.find? other = some kept := by
  obtain ⟨hframe, haddress⟩ := hsound.pool.find?_eq_some_iff.mp hfind
  have hpage : frame.page.settled.address = frame.page.address := rfl
  rw [← haddress] at hother
  rw [hflushed.pool, hsound.pool.find?_replace_other hframe hpage hother, hkept]

/-- The places of other pages stay as they are. -/
theorem Flushed.slice_other {frame : Frame} {table : Table} {content : Content}
    (hflushed : store.Flushed address frame table content after) (hsound : store.Sound)
    (hapart : store.catalog.Apart store.log.location) {other : PageAddress} {table' : Table}
    (hother : other ≠ address) (htable' : store.catalog.table other.table = .ok table') :
    (after.tableContent table').slice (table'.offset other.number) table'.pageSize
      = (store.tableContent table').slice (table'.offset other.number) table'.pageSize := by
  have hfiles := hflushed.files table'.location (hapart.of_table htable')
  simp only [tableContent, hfiles]
  -- In the same file the place is another one; in another file nothing is written.
  by_cases htables : other.table = address.table
  · have hsame : table' = table := by
      rw [htables, hflushed.registered] at htable'
      exact (Except.ok.inj htable').symm
    subst hsame
    have hnumber : other.number ≠ address.number := by
      intro heq
      apply hother
      cases other
      cases address
      simp_all
    rw [if_pos rfl]
    exact hflushed.written.slice_other hnumber
  · rw [if_neg (hsound.catalog.location_ne htable' hflushed.registered htables)]

/-- The place of the page has its bytes. -/
theorem Flushed.slice_same {frame : Frame} {table : Table} {content : Content}
    (hflushed : store.Flushed address frame table content after)
    (hapart : store.catalog.Apart store.log.location) :
    (after.tableContent table).slice (table.offset address.number) table.pageSize
      = frame.page.bytes := by
  have hfiles := hflushed.files table.location (hapart.of_table hflushed.registered)
  simp only [tableContent, hfiles, if_true]
  exact hflushed.written.slice_same

/-- The flush of a page that is in its file changes no file. -/
theorem Flushed.sameFiles {frame : Frame} {table : Table} {content : Content}
    (hflushed : store.Flushed address frame table content after)
    (hslice : (store.tableContent table).slice (table.offset address.number) table.pageSize
      = frame.page.bytes) : store.SameFiles after := by
  intro location hlocation
  rw [hflushed.files location hlocation]
  split
  · rename_i hfile
    have hinside := hflushed.written.inside
    rw [Content.size_eq_length] at hinside
    rw [Content.slice_eq, ← hflushed.written.length] at hslice
    rw [hflushed.written.toBytes, Bytes.splice_of_slice_eq hslice hinside, hfile]
    rfl
  · rfl

theorem SameFiles.slice_eq (hsame : store.SameFiles after)
    (hapart : store.catalog.Apart store.log.location) {id : TableId} {table : Table}
    (htable : store.catalog.table id = .ok table) (offset count : Nat) :
    (after.tableContent table).slice offset count
      = (store.tableContent table).slice offset count := by
  simp only [tableContent, Content.slice_eq, hsame table.location (hapart.of_table htable)]

/-- Where no file has changed, a page is in its file after a step if it was before. -/
theorem SameFiles.inFile_iff (hsame : store.SameFiles after)
    (hapart : store.catalog.Apart store.log.location) (hcatalog : after.catalog = store.catalog)
    (hfind : after.pool.find? address = store.pool.find? address) :
    after.InFile address ↔ store.InFile address := by
  simp only [InFile, hcatalog, hfind]
  constructor
  · rintro ⟨frame, table, hframe, htable, hslice⟩
    rw [hsame.slice_eq hapart htable] at hslice
    exact ⟨frame, table, hframe, htable, hslice⟩
  · rintro ⟨frame, table, hframe, htable, hslice⟩
    rw [← hsame.slice_eq hapart htable] at hslice
    exact ⟨frame, table, hframe, htable, hslice⟩

theorem SameFiles.iff_of_first (hsame : store.SameFiles after)
    (hlocation : after.log.location = store.log.location) :
    store.SameFiles last ↔ after.SameFiles last := by
  constructor
  · intro hall location hother
    rw [hlocation] at hother
    rw [hall location hother, hsame location hother]
  · intro hall location hother
    rw [← hsame location hother]
    exact hall location (by rw [hlocation]; exact hother)

/-- The bytes that the file of a table has in the place of a page. -/
def placeOf (store : Store) (table : Table) (number : UInt32) : Bytes :=
  (store.tableContent table).slice (table.offset number) table.pageSize

/-- What flushes do when they all succeed: the places of these pages have the bytes that were
cached, those of all others what they had.  If every place had these bytes already, no file has
changed. -/
structure AllFlushed (store : Store) (addresses : List PageAddress) (after : Store) : Prop where
  location : after.log.location = store.log.location
  own : ∀ address ∈ addresses, ∃ frame table, store.pool.find? address = some frame ∧
    store.catalog.table address.table = .ok table ∧
      after.placeOf table address.number = frame.page.bytes
  others : ∀ address table, address ∉ addresses → store.catalog.table address.table = .ok table →
    after.placeOf table address.number = store.placeOf table address.number
  same : (∀ address ∈ addresses, store.InFile address) → store.SameFiles after

/-- One flush, and then all the others on pages that it left in the cache. -/
theorem AllFlushed.cons {mid : Store} {rest : List PageAddress} {frame : Frame} {table : Table}
    {content : Content} (hsound : store.Sound) (hapart : store.catalog.Apart store.log.location)
    (hfind : store.pool.find? address = some frame)
    (hflushed : store.Flushed address frame table content mid) (hout : address ∉ rest)
    (hkept : ∀ other ∈ rest, mid.pool.find? other = store.pool.find? other)
    (hlast : mid.AllFlushed rest after) : store.AllFlushed (address :: rest) after := by
  refine ⟨hlast.location.trans hflushed.location, ?_, ?_, ?_⟩
  · intro other hother
    rcases List.mem_cons.mp hother with rfl | hother
    -- no later flush writes to the place of the first page
    · refine ⟨frame, table, hfind, hflushed.registered, ?_⟩
      rw [hlast.others other table hout (by rw [hflushed.catalog, hflushed.registered])]
      exact hflushed.slice_same hapart
    · obtain ⟨kept, table', hfound, htable', hplace⟩ := hlast.own other hother
      rw [hkept other hother] at hfound
      rw [hflushed.catalog] at htable'
      exact ⟨kept, table', hfound, htable', hplace⟩
  · intro other table' hother htable'
    have hne : other ≠ address := fun heq => hother (heq ▸ List.mem_cons_self)
    have hothers : other ∉ rest := fun hmem => hother (List.mem_cons_of_mem _ hmem)
    rw [hlast.others other table' hothers (by rw [hflushed.catalog, htable'])]
    exact hflushed.slice_other hsound hapart hne htable'
  · intro hall
    obtain ⟨_, _, hfind', htable', hslice⟩ := hall address List.mem_cons_self
    obtain rfl := Option.some.inj (hfind.symm.trans hfind')
    obtain rfl := Except.ok.inj (hflushed.registered.symm.trans htable')
    -- the first flush changes nothing, so the others find what they found before
    have hsame := hflushed.sameFiles hslice
    apply (hsame.iff_of_first hflushed.location).mpr
    apply hlast.same
    intro other hother
    apply (hsame.inFile_iff hapart hflushed.catalog (hkept other hother)).mpr
    exact hall other (List.mem_cons_of_mem _ hother)

theorem allFlushed_of_ok (addresses : List PageAddress) (hsound : store.Sound)
    (hapart : store.catalog.Apart store.log.location) (hnodup : addresses.Nodup)
    (hdirty : ∀ address ∈ addresses, store.Dirty address)
    (hflush : (addresses.forM flushPage).perform store = (.ok (), after)) :
    store.AllFlushed addresses after := by
  induction addresses generalizing store with
  | nil =>
      obtain rfl : store = after := (Prod.mk.inj hflush).2
      exact ⟨rfl, fun _ h => absurd h List.not_mem_nil, fun _ _ _ _ => rfl, fun _ _ _ => rfl⟩
  | cons address rest ih =>
      obtain ⟨hout, hrest⟩ := List.nodup_cons.mp hnodup
      obtain ⟨frame, owner, hfind, howner⟩ := hdirty address List.mem_cons_self
      obtain ⟨hframe, -⟩ := hsound.pool.find?_eq_some_iff.mp hfind
      rw [perform_forM_cons] at hflush
      cases hfirst : (flushPage address).perform store with
      | mk result mid =>
          rw [hfirst] at hflush
          cases result with
          | error error => exact absurd (Prod.mk.inj hflush).1 (by simp)
          | ok _ =>
              obtain ⟨table, content, hflushed⟩ :=
                flushed_of_ok hsound hapart hfind howner hfirst
              have hapart' : mid.catalog.Apart mid.log.location := by
                rw [hflushed.catalog, hflushed.location]
                exact hapart
              -- the other pages are still cached as they were
              have hkept : ∀ other ∈ rest, mid.pool.find? other = store.pool.find? other := by
                intro other hother
                obtain ⟨kept, who, hfound, -⟩ := hdirty other (List.mem_cons_of_mem _ hother)
                have hne : other ≠ address := fun heq => hout (heq ▸ hother)
                rw [hflushed.find?_other hsound hfind hne hfound, hfound]
              have hdirty' : ∀ other ∈ rest, mid.Dirty other := by
                intro other hother
                obtain ⟨kept, who, hfound, hwho⟩ := hdirty other (List.mem_cons_of_mem _ hother)
                exact ⟨kept, who, (hkept other hother).trans hfound, hwho⟩
              have hlast := ih (hflushed.sound hsound hframe) hapart' hrest hdirty' hflush
              exact .cons hsound hapart hfind hflushed hout hkept hlast

/-- Flushes that all succeed leave the files as they were exactly if the pages were in them. -/
theorem AllFlushed.sameFiles_iff {addresses : List PageAddress}
    (hflushed : store.AllFlushed addresses after)
    (hapart : store.catalog.Apart store.log.location) :
    store.SameFiles after ↔ ∀ address ∈ addresses, store.InFile address := by
  constructor
  · intro hsame address hmem
    obtain ⟨frame, table, hfind, htable, hplace⟩ := hflushed.own address hmem
    rw [placeOf, hsame.slice_eq hapart htable] at hplace
    exact ⟨frame, table, hfind, htable, hplace⟩
  · exact hflushed.same

/-! ## Commits -/

/-- A commit that flushes the pages in this order. -/
def commitIn (order : List PageAddress) (tid : TransactionId) : Action Unit :=
  try do
    order.forM flushPage
    modify fun store => store.withLocks (store.pool.locks.releaseAll tid)
    logOutcome tid true
  catch error => do
    abandon tid
    throw error

theorem perform_commitIn (order : List PageAddress) (tid : TransactionId) (store : Store) :
    (commitIn order tid).perform store =
      match (order.forM flushPage).perform store with
      | (.error error, after) => (.error error, ((finish tid false).perform after).2)
      | (.ok (), after) =>
        (.ok (), (after.withLocks (after.pool.locks.releaseAll tid)).logged tid .commit) := by
  simp only [commitIn, perform_tryCatch, perform_bind, perform_abandon]
  rcases (order.forM flushPage).perform store with ⟨result, after⟩
  cases result with
  | error error => rfl
  | ok _ => rfl

/-- Commit flushes the pages in the order of their addresses. -/
theorem perform_commit (tid : TransactionId) (store : Store) :
    (commit tid).perform store = (commitIn (store.pool.dirtiedBy tid) tid).perform store := by
  simp only [commit, perform_endWith, perform_finish, perform_complete, perform_commitIn, if_true]
  rcases ((store.pool.dirtiedBy tid).forM flushPage).perform store with ⟨result, after⟩
  cases result with
  | error error => rfl
  | ok _ => rfl

theorem dirty_of_mem_dirtiedBy (hsound : store.Sound)
    (hmem : address ∈ store.pool.dirtiedBy tid) : store.Dirty address := by
  simp only [Pool.dirtiedBy, (perm_inOrder _ _).mem_iff, List.mem_map, List.mem_filter,
    decide_eq_true_eq] at hmem
  obtain ⟨frame, ⟨hframe, howner⟩, haddress⟩ := hmem
  exact ⟨frame, tid, hsound.pool.find?_eq_some_iff.mpr ⟨hframe, haddress⟩, howner⟩

theorem nodup_dirtiedBy (hsound : store.Sound) (tid : TransactionId) :
    (store.pool.dirtiedBy tid).Nodup := by
  have hfiltered : (store.pool.resident.filter (·.page.owner = some tid)).Sublist
      store.pool.resident := List.filter_sublist
  have haddresses := hfiltered.map fun frame : Frame => frame.page.address
  exact (perm_inOrder PageAddress.precedes _).nodup_iff.mpr
    (hsound.pool.addresses.sublist haddresses)

/-- Work on pages that fails does so at one of them, after those before it. -/
theorem forM_error {work : PageAddress → Action Unit} {addresses : List PageAddress}
    {error : StoreError} (hwork : (addresses.forM work).perform store = (.error error, after)) :
    ∃ done address rest mid, addresses = done ++ address :: rest ∧
      (done.forM work).perform store = (.ok (), mid) ∧
      (work address).perform mid = (.error error, after) := by
  induction addresses generalizing store with
  | nil => exact absurd (Prod.mk.inj hwork).1 (by simp)
  | cons address addresses ih =>
      rw [perform_forM_cons] at hwork
      cases hfirst : (work address).perform store with
      | mk result mid =>
          rw [hfirst] at hwork
          cases result with
          | error other => exact ⟨[], address, addresses, store, rfl, rfl, hfirst.trans hwork⟩
          | ok _ =>
              obtain ⟨done, failed, rest, last, rfl, hdone, hfailed⟩ := ih hwork
              refine ⟨address :: done, failed, rest, last, rfl, ?_, hfailed⟩
              rw [perform_forM_cons, hfirst]
              exact hdone

/-- What a commit with an error has done to the files: it has flushed some of its pages before the
flush of another one failed.  The places of the flushed pages have the bytes that were cached, all
other places what they had before; so the files are as they were exactly if every flushed page was
in its file already. -/
structure Interrupted (store : Store) (order : List PageAddress) (error : StoreError)
    (done : List PageAddress) (after : Store) : Prop where
  stopped : ∃ failed rest mid last, order = done ++ failed :: rest ∧
    (done.forM flushPage).perform store = (.ok (), mid) ∧
    (flushPage failed).perform mid = (.error error, last)
  own : ∀ address ∈ done, ∃ frame table, store.pool.find? address = some frame ∧
    store.catalog.table address.table = .ok table ∧
      after.placeOf table address.number = frame.page.bytes
  others : ∀ address table, address ∉ done → store.catalog.table address.table = .ok table →
    after.placeOf table address.number = store.placeOf table address.number
  same : store.SameFiles after ↔ ∀ address ∈ done, store.InFile address

/-- A commit flushes its pages in the order of their addresses.  Whatever the order, a commit that
fails was interrupted, and its abort does not bring the files back. -/
theorem failed_commit (hreached : Reached store)
    (hapart : store.catalog.Apart store.log.location) (tid : TransactionId) :
    (commit tid).perform store = (commitIn (store.pool.dirtiedBy tid) tid).perform store ∧
      ∀ order error after, order.Perm (store.pool.dirtiedBy tid) →
        (commitIn order tid).perform store = (.error error, after) →
          ∃ done, store.Interrupted order error done after := by
  refine ⟨perform_commit tid store, ?_⟩
  intro order error after hperm hfails
  have hsound := hreached.sound
  rw [perform_commitIn] at hfails
  cases hflushes : (order.forM flushPage).perform store with
  | mk result last =>
      rw [hflushes] at hfails
      cases result with
      | ok _ => exact absurd (Prod.mk.inj hfails).1 (by simp)
      | error other =>
          obtain ⟨herror, rfl⟩ := Prod.mk.inj hfails
          obtain rfl := Except.error.inj herror
          obtain ⟨done, failed, rest, mid, rfl, hdone, hfailed⟩ := forM_error hflushes
          have hnodup : (done ++ failed :: rest).Nodup :=
            hperm.nodup_iff.mpr (nodup_dirtiedBy hsound tid)
          have hdirty : ∀ address ∈ done, store.Dirty address := fun address hmem =>
            dirty_of_mem_dirtiedBy hsound (hperm.mem_iff.mp (List.mem_append_left _ hmem))
          have hflushed := allFlushed_of_ok done hsound hapart
            (List.nodup_append.mp hnodup).1 hdirty hdone
          -- after the last flush that succeeded only the log is written
          have hlogged : mid.OnlyLogged ((finish tid false).perform last).2 :=
            (onlyLogged_of_error hfailed).trans (onlyLogged_abort tid last)
          have hplace : ∀ (id : TableId) (table : Table) (number : UInt32),
              store.catalog.table id = .ok table →
              ((finish tid false).perform last).2.placeOf table number
                = mid.placeOf table number := by
            intro id table number htable
            have hfile : table.location ≠ mid.log.location := by
              rw [hflushed.location]
              exact hapart.of_table htable
            simp only [placeOf, tableContent, hlogged.files table.location hfile]
          refine ⟨done, ⟨failed, rest, mid, last, rfl, hdone, hfailed⟩, ?_, ?_, ?_⟩
          · intro address hmem
            obtain ⟨frame, table, hfind, htable, hown⟩ := hflushed.own address hmem
            exact ⟨frame, table, hfind, htable, (hplace _ table _ htable).trans hown⟩
          · intro address table hmem htable
            exact (hplace _ table _ htable).trans (hflushed.others address table hmem htable)
          · rw [hlogged.sameFiles_iff hflushed.location]
            exact hflushed.sameFiles_iff hapart

/-- A transaction has changed a page of each of two tables, and one of the tables is no longer
registered. -/
def halfRegistered : Store :=
  sample.run [.openTable "b" "b" sampleSchema none 16, .begin,
    .insert 1 sampleTable (sampleRow 7), .insert 1 (.ofLocation ["b"]) (sampleRow 8),
    .clearCatalog, .openTable "a" "a" sampleSchema none 16]

theorem failed_commit_halfRegistered :
    (commit 1).perform halfRegistered
        = (commitIn (halfRegistered.pool.dirtiedBy 1) 1).perform halfRegistered ∧
      ∀ order error after, order.Perm (halfRegistered.pool.dirtiedBy 1) →
        (commitIn order 1).perform halfRegistered = (.error error, after) →
          ∃ done, halfRegistered.Interrupted order error done after :=
  failed_commit (opened_sample.reached.run _) (by decide +kernel) 1

/-- A commit that fails on the page of the second table has written the page of the first. -/
theorem failed_commit_writes :
    ∃ store tid, Reached store ∧ store.catalog.Apart store.log.location ∧
      ((commit tid).perform store).1.isOk = false ∧
      ¬ store.SameFiles ((commit tid).perform store).2 := by
  refine ⟨halfRegistered, 1, opened_sample.reached.run _, by decide +kernel, by decide +kernel, ?_⟩
  intro hsame
  have hfile := hsame ["a"] (by decide +kernel)
  revert hfile
  decide +kernel

end Store

end HeapStore
