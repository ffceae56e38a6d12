import HeapStore.Proofs.Exclusive
import HeapStore.Proofs.Images

/-!
# Flushes that stop half-way

A call that flushes pages takes them one after the other, in no fixed order, and stops at the first
one that fails.  Whatever makes it fail, be it a failpoint, a table that is no longer registered or
a file that refuses the page, no page is left in between: those that the call has come through are
clean and in their files, all others are as they were (`FlushedTo`).

The walk is followed by one lemma for a single flush (`flushedTo_flushPage`) and one that joins two
parts of the walk (`FlushedTo.append`).  `flush_all_or_nothing` is what follows for each of the
calls, `complete` among them, with what becomes of the locks.
-/

namespace HeapStore

/-! ## Records in the log -/

/-- A write leaves the same content in its place, whatever was there before. -/
theorem Disk.content_write_self (disk other : Disk) (location : Location) (content : Content) :
    (disk.write location content).content location
      = (other.write location content).content location := by
  by_cases hroot : location = []
  · simp [Disk.content, Disk.entry?, hroot]
  · rw [content_write_same disk hroot, content_write_same other hroot]

namespace Files

variable {files other last : Files}

/-- After these records were written to the log, one after the other. -/
def markedAll (files : Files) (marks : List Mark) : Files :=
  marks.foldl Files.marked files

theorem markedAll_append (files : Files) (marks later : List Mark) :
    files.markedAll (marks ++ later) = (files.markedAll marks).markedAll later :=
  List.foldl_append

/-- The log is the same, and so is what its file has. -/
structure SameLog (files other : Files) : Prop where
  log : other.log = files.log
  file : other.disk.content files.log.location = files.disk.content files.log.location

theorem SameLog.refl (files : Files) : files.SameLog files :=
  ⟨rfl, rfl⟩

theorem SameLog.trans (hfirst : files.SameLog other) (hsecond : other.SameLog last) :
    files.SameLog last := by
  refine ⟨hsecond.log.trans hfirst.log, ?_⟩
  rw [← hfirst.file, ← hfirst.log]
  exact hsecond.file

theorem SameLog.marked (hsame : files.SameLog other) (mark : Mark) :
    (files.marked mark).SameLog (other.marked mark) := by
  obtain ⟨log, disk⟩ := files
  obtain ⟨_, later⟩ := other
  obtain ⟨rfl, hfile⟩ := hsame
  simp only at hfile
  constructor
  · simp only [Files.marked, Log.after, Log.write, hfile]
  · simp only [Files.marked, Log.after, Log.write, hfile]
    exact Disk.content_write_self ..

theorem SameLog.markedAll (hsame : files.SameLog other) (marks : List Mark) :
    (files.markedAll marks).SameLog (other.markedAll marks) := by
  induction marks generalizing files other with
  | nil => exact hsame
  | cons mark marks ih => exact ih (hsame.marked mark)

end Files

namespace Store

open HeapStore.Action

variable {store mid after : Store} {tid : TransactionId} {address : PageAddress}

/-! ## What becomes of a page -/

/-- A page went to its file: the file has the bytes that were cached, and the page is cached as
before, but clean and with these bytes as its former ones. -/
def Settles (store : Store) (address : PageAddress) (after : Store) : Prop :=
  ∃ frame table, store.pool.find? address = some frame ∧
    after.pool.find? address = some ⟨frame.stamp, frame.page.settled⟩ ∧
    store.catalog.table address.table = .ok table ∧
    after.placeOf table address.number = frame.page.bytes

/-- The record of a changed page: what it was and what it is, for the transaction that changed
it. -/
def Tells (store : Store) (address : PageAddress) (mark : Mark) : Prop :=
  ∃ frame owner former, store.pool.find? address = some frame ∧ frame.page.owner = some owner ∧
    frame.page.beforeImage = .ok former ∧
    mark = (owner, .update address former.bytes frame.page.bytes)

theorem Tells.dirty {mark : Mark} (htells : store.Tells address mark) : store.Dirty address := by
  obtain ⟨frame, owner, -, hfind, howner, -⟩ := htells
  exact ⟨frame, owner, hfind, howner⟩

/-- A page that went to its file is clean. -/
theorem Settles.not_dirty (hsettles : store.Settles address after) : ¬ after.Dirty address := by
  obtain ⟨frame, -, -, hfind, -⟩ := hsettles
  rintro ⟨other, owner, hother, howner⟩
  obtain rfl := Option.some.inj (hfind.symm.trans hother)
  have hclean : frame.page.settled.owner = none := rfl
  exact absurd (hclean.symm.trans howner) (by simp)

theorem Spares.dirty_iff (hspares : store.Spares address after) :
    after.Dirty address ↔ store.Dirty address := by
  simp only [Dirty, hspares.cached]

theorem Spares.tells_iff (hspares : store.Spares address after) {mark : Mark} :
    after.Tells address mark ↔ store.Tells address mark := by
  simp only [Tells, hspares.cached]

/-- A page keeps what it has come to while later work spares it. -/
theorem Settles.spared (hsettles : store.Settles address mid) (hspares : mid.Spares address after)
    (hapart : mid.catalog.Apart mid.log.location) (hcatalog : mid.catalog = store.catalog) :
    store.Settles address after := by
  obtain ⟨frame, table, hfind, hcached, htable, hplace⟩ := hsettles
  refine ⟨frame, table, hfind, hspares.cached.trans hcached, htable, ?_⟩
  rw [hspares.filed hapart table (by rw [hcatalog, htable]), hplace]

theorem Settles.of_spared (hspares : store.Spares address mid)
    (hsettles : mid.Settles address after) : store.Settles address after := by
  obtain ⟨frame, table, hfind, hcached, htable, hplace⟩ := hsettles
  exact ⟨frame, table, hspares.cached ▸ hfind, hcached, hspares.catalog ▸ htable, hplace⟩

/-! ## How far a call has come -/

/-- A changed page among these. -/
def DirtyIn (store : Store) (order : List PageAddress) (address : PageAddress) : Prop :=
  address ∈ order ∧ store.Dirty address

/-- Of the changed pages that a call is to flush, these are done: they have gone to their files,
with one record each in the log, and all of them are done if the call succeeds.  Every other page
is as it was, in the cache and in its file.  A flush that fails may have written its record. -/
structure FlushedTo (store : Store) (targets : PageAddress → Prop) (done : List PageAddress)
    (result : Except StoreError Unit) (after : Store) : Prop where
  meant : ∀ address ∈ done, targets address
  all : result = .ok () → ∀ address, targets address → address ∈ done
  once : done.Nodup
  settled : ∀ address ∈ done, store.Settles address after
  spared : ∀ address ∉ done, store.Spares address after
  files : ∀ location, location ≠ store.log.location →
    (∀ address ∈ done, ∀ table, store.catalog.table address.table = .ok table →
      table.location ≠ location) →
    after.disk.content location = store.disk.content location
  catalog : after.catalog = store.catalog
  location : after.log.location = store.log.location
  records : ∃ marks more, List.Forall₂ store.Tells done marks ∧
    (store.files.markedAll (marks ++ more)).SameLog after.files ∧
    (more = [] ∨ (∃ error, result = .error error) ∧ ∃ address mark, targets address ∧
      address ∉ done ∧ store.Tells address mark ∧ more = [mark])

namespace FlushedTo

variable {targets : PageAddress → Prop} {done later : List PageAddress}
  {result : Except StoreError Unit}

/-- Nothing was flushed, and nothing but a record may have been written. -/
theorem nothing (more : List Mark) (hall : result = .ok () → ∀ address, ¬ targets address)
    (hlogged : store.OnlyLogged after) (hpool : after.pool = store.pool)
    (hcatalog : after.catalog = store.catalog)
    (hfiles : (store.files.markedAll more).SameLog after.files)
    (hmore : more = [] ∨ (∃ error, result = .error error) ∧ ∃ address mark, targets address ∧
      store.Tells address mark ∧ more = [mark]) :
    store.FlushedTo targets [] result after where
  meant := by simp
  all := fun hok address htarget => absurd htarget (hall hok address)
  once := List.nodup_nil
  settled := by simp
  spared := fun address _ => spares_of_onlyLogged hlogged (by rw [hpool]) hcatalog
  files := fun location hlocation _ => hlogged.files location hlocation
  catalog := hcatalog
  location := hlogged.location
  records := by
    refine ⟨[], more, .nil, hfiles, hmore.imp_right ?_⟩
    rintro ⟨herror, address, mark, htarget, htells, rfl⟩
    exact ⟨herror, address, mark, htarget, List.not_mem_nil, htells, rfl⟩

theorem refl (hall : result = .ok () → ∀ address, ¬ targets address) :
    store.FlushedTo targets [] result store :=
  nothing [] hall (.refl store) rfl rfl (.refl store.files) (.inl rfl)

/-- The changed pages after the call are those before it that are not done. -/
theorem dirty_iff (hflushed : store.FlushedTo targets done result mid) :
    mid.Dirty address ↔ store.Dirty address ∧ address ∉ done := by
  constructor
  · intro hdirty
    have hout : address ∉ done := fun hmem => (hflushed.settled address hmem).not_dirty hdirty
    exact ⟨(hflushed.spared address hout).dirty_iff.mp hdirty, hout⟩
  · rintro ⟨hdirty, hout⟩
    exact (hflushed.spared address hout).dirty_iff.mpr hdirty

theorem tells_before (hflushed : store.FlushedTo targets done result mid) {mark : Mark}
    (htells : mid.Tells address mark) : store.Tells address mark := by
  have hout := (hflushed.dirty_iff.mp htells.dirty).2
  exact (hflushed.spared address hout).tells_iff.mp htells

/-- The rest of a walk goes on where its front has come to. -/
theorem append {front rest : List PageAddress}
    (hapart : store.catalog.Apart store.log.location)
    (hfront : store.FlushedTo (store.DirtyIn front) done (.ok ()) mid)
    (hrest : mid.FlushedTo (mid.DirtyIn rest) later result after) :
    store.FlushedTo (store.DirtyIn (front ++ rest)) (done ++ later) result after := by
  have hapart' : mid.catalog.Apart mid.log.location := by
    rw [hfront.catalog, hfront.location]
    exact hapart
  have hbefore : ∀ address, mid.DirtyIn rest address →
      store.DirtyIn (front ++ rest) address ∧ address ∉ done := by
    rintro address ⟨hmem, hdirty⟩
    obtain ⟨hwas, hout⟩ := hfront.dirty_iff.mp hdirty
    exact ⟨⟨List.mem_append_right front hmem, hwas⟩, hout⟩
  refine {
    meant := ?meant
    all := ?all
    once := ?once
    settled := ?settled
    spared := ?spared
    files := ?files
    catalog := hrest.catalog.trans hfront.catalog
    location := hrest.location.trans hfront.location
    records := ?records }
  case meant =>
    intro address hmem
    rcases List.mem_append.mp hmem with hmem | hmem
    · obtain ⟨hfirst, hdirty⟩ := hfront.meant address hmem
      exact ⟨List.mem_append_left rest hfirst, hdirty⟩
    · exact (hbefore address (hrest.meant address hmem)).1
  case all =>
    rintro hok address ⟨hmem, hdirty⟩
    rw [List.mem_append]
    by_cases hdone : address ∈ done
    · exact .inl hdone
    · rcases List.mem_append.mp hmem with hmem | hmem
      · exact .inl (hfront.all rfl address ⟨hmem, hdirty⟩)
      · exact .inr (hrest.all hok address ⟨hmem, hfront.dirty_iff.mpr ⟨hdirty, hdone⟩⟩)
  case once =>
    rw [List.nodup_append]
    refine ⟨hfront.once, hrest.once, ?_⟩
    rintro address hdone _ hlater rfl
    exact (hbefore address (hrest.meant address hlater)).2 hdone
  case settled =>
    intro address hmem
    rcases List.mem_append.mp hmem with hmem | hmem
    · have hout : address ∉ later :=
        fun hlater => (hbefore address (hrest.meant address hlater)).2 hmem
      exact (hfront.settled address hmem).spared (hrest.spared address hout) hapart' hfront.catalog
    · have hout := (hbefore address (hrest.meant address hmem)).2
      exact .of_spared (hfront.spared address hout) (hrest.settled address hmem)
  case spared =>
    intro address hout
    rw [List.mem_append, not_or] at hout
    exact (hfront.spared address hout.1).trans (hrest.spared address hout.2)
  case files =>
    intro location hlocation hothers
    rw [hrest.files location (by rw [hfront.location]; exact hlocation) ?_]
    · exact hfront.files location hlocation fun address hmem =>
        hothers address (List.mem_append_left later hmem)
    · rw [hfront.catalog]
      exact fun address hmem => hothers address (List.mem_append_right done hmem)
  case records =>
    obtain ⟨marks, none, hmarks, hlog, hnone⟩ := hfront.records
    obtain ⟨marks', more, hmarks', hlog', hmore⟩ := hrest.records
    obtain rfl : none = [] := hnone.resolve_right fun ⟨⟨error, herror⟩, _⟩ => by simp at herror
    rw [List.append_nil] at hlog
    refine ⟨marks ++ marks', more, ?_, ?_, hmore.imp_right ?_⟩
    · exact List.rel_append hmarks (hmarks'.imp fun address mark => hfront.tells_before)
    · rw [List.append_assoc, Files.markedAll_append]
      exact (hlog.markedAll _).trans hlog'
    · rintro ⟨herror, address, mark, htarget, hout, htells, rfl⟩
      obtain ⟨hmem, hnew⟩ := hbefore address htarget
      exact ⟨herror, address, mark, hmem, by simp [hnew, hout], hfront.tells_before htells, rfl⟩

/-- A walk that stops in its front does not come to the rest. -/
theorem stopped {front : List PageAddress} {error : StoreError}
    (hfront : store.FlushedTo (store.DirtyIn front) done (.error error) after)
    (rest : List PageAddress) :
    store.FlushedTo (store.DirtyIn (front ++ rest)) done (.error error) after where
  meant := fun address hmem =>
    ⟨List.mem_append_left rest (hfront.meant address hmem).1, (hfront.meant address hmem).2⟩
  all := by simp
  once := hfront.once
  settled := hfront.settled
  spared := hfront.spared
  files := hfront.files
  catalog := hfront.catalog
  location := hfront.location
  records := by
    obtain ⟨marks, more, hmarks, hlog, hmore⟩ := hfront.records
    refine ⟨marks, more, hmarks, hlog, hmore.imp_right ?_⟩
    rintro ⟨herror, address, mark, ⟨hmem, hdirty⟩, hrest⟩
    exact ⟨herror, address, mark, ⟨List.mem_append_left rest hmem, hdirty⟩, hrest⟩

end FlushedTo

/-! ## The walk -/

/-- The flush of a page that is not changed does nothing. -/
theorem flushPage_of_clean (hclean : ¬ store.Dirty address) :
    (flushPage address).perform store = (.ok (), store) := by
  rw [perform_flushPage]
  cases hfind : store.pool.find? address with
  | none => rfl
  | some frame =>
      cases howner : frame.page.owner with
      | none => simp only [howner]
      | some owner => exact absurd ⟨frame, owner, hfind, howner⟩ hclean

/-- The flush of a changed page writes nothing, or its record and nothing else, or both its record
and the page. -/
theorem flushPage_tells (hsound : store.Sound) (hapart : store.catalog.Apart store.log.location)
    (hdirty : store.Dirty address) :
    (∃ error, (flushPage address).perform store = (.error error, store)) ∨
      ∃ mark, store.Tells address mark ∧
        ((∃ error, (flushPage address).perform store
            = (.error error, store.logged mark.1 mark.2)) ∨
          ∃ after, (flushPage address).perform store = (.ok (), after) ∧
            (store.files.marked mark).SameLog after.files) := by
  obtain ⟨frame, owner, hfind, howner⟩ := hdirty
  have haddress := (hsound.pool.find?_eq_some_iff.mp hfind).2
  rw [perform_flushPage, hfind]
  simp only [howner, perform_flushFrame]
  cases hformer : frame.page.beforeImage with
  | error error => exact .inl ⟨error, rfl⟩
  | ok former =>
      refine .inr ⟨(owner, .update frame.page.address former.bytes frame.page.bytes),
        ⟨frame, owner, former, hfind, howner, hformer, by rw [haddress]⟩, ?_⟩
      simp only
      split
      · rename_i error _
        exact .inl ⟨error, rfl⟩
      · rename_i disk hwrite
        obtain ⟨-, -, table, content, htable, -, rfl⟩ := Catalog.of_write hwrite
        exact .inr ⟨_, rfl, rfl, Disk.content_write_other _ (hapart.of_table htable).symm content⟩

/-- A flush that succeeds has flushed its page and no other. -/
theorem Flushed.flushedTo {frame : Frame} {table : Table} {content : Content} {mark : Mark}
    (hflushed : store.Flushed address frame table content after) (hsound : store.Sound)
    (hapart : store.catalog.Apart store.log.location) (htells : store.Tells address mark)
    (hfind : store.pool.find? address = some frame)
    (hspares : ∀ other, other ≠ address → store.Spares other after)
    (hlog : (store.files.marked mark).SameLog after.files) :
    store.FlushedTo (store.DirtyIn [address]) [address] (.ok ()) after where
  meant := List.forall_mem_singleton.mpr ⟨List.mem_singleton_self address, htells.dirty⟩
  all := fun _ other hother => hother.1
  once := List.nodup_singleton address
  settled := by
    obtain ⟨hframe, rfl⟩ := hsound.pool.find?_eq_some_iff.mp hfind
    have hafter := hflushed.sound hsound hframe
    rw [List.forall_mem_singleton]
    refine ⟨frame, table, hfind, ?_, hflushed.registered, hflushed.slice_same hapart⟩
    apply hafter.pool.find?_eq_some_iff.mpr
    rw [hflushed.pool, Pool.mem_replace]
    exact ⟨.inr ⟨rfl, frame, hframe, rfl⟩, rfl⟩
  spared := fun other hother => hspares other fun heq => hother (List.mem_singleton.mpr heq)
  files := by
    intro location hlocation hothers
    rw [hflushed.files location hlocation, if_neg]
    exact (hothers address (List.mem_singleton_self address) table hflushed.registered).symm
  catalog := hflushed.catalog
  location := hflushed.location
  records := ⟨[mark], [], .cons htells .nil, hlog, .inl rfl⟩

/-- A single flush leaves its page as it was, or flushes it. -/
theorem flushedTo_flushPage (hsound : store.Sound)
    (hapart : store.catalog.Apart store.log.location) (address : PageAddress) :
    ∃ done, store.FlushedTo (store.DirtyIn [address]) done
      ((flushPage address).perform store).1 ((flushPage address).perform store).2 := by
  by_cases hdirty : store.Dirty address
  · have htarget : store.DirtyIn [address] address := ⟨List.mem_singleton_self address, hdirty⟩
    rcases flushPage_tells hsound hapart hdirty with
      ⟨error, hflush⟩ | ⟨mark, htells, ⟨error, hflush⟩ | ⟨after, hflush, hlog⟩⟩
    · rw [hflush]
      exact ⟨[], .refl (by simp)⟩
    · rw [hflush]
      have hlog : (store.files.markedAll [mark]).SameLog (store.logged mark.1 mark.2).files :=
        .refl _
      exact ⟨[], .nothing [mark] (by simp) (onlyLogged_logged store mark.1 mark.2) rfl rfl hlog
        (.inr ⟨⟨error, rfl⟩, address, mark, htarget, htells, rfl⟩)⟩
    · obtain ⟨frame, owner, hfind, howner⟩ := hdirty
      obtain ⟨table, content, hflushed⟩ := flushed_of_ok hsound hapart hfind howner hflush
      have hspares := fun other (hother : other ≠ address) => spares_flushPage hsound hother
      rw [hflush] at hspares ⊢
      exact ⟨[address], hflushed.flushedTo hsound hapart htells hfind hspares hlog⟩
  · rw [flushPage_of_clean hdirty]
    refine ⟨[], .refl ?_⟩
    rintro - other ⟨hother, hchanged⟩
    rw [List.mem_singleton.mp hother] at hchanged
    exact hdirty hchanged

/-- Wherever a walk over pages stops, the pages that it has come through are flushed, and all others
are as they were. -/
theorem flushedTo_forM (hsound : store.Sound) (hapart : store.catalog.Apart store.log.location)
    (order : List PageAddress) :
    ∃ done, store.FlushedTo (store.DirtyIn order) done
      ((order.forM flushPage).perform store).1 ((order.forM flushPage).perform store).2 := by
  induction order generalizing store with
  | nil =>
      exact ⟨[], .refl fun _ address htarget => absurd htarget.1 List.not_mem_nil⟩
  | cons address rest ih =>
      obtain ⟨done, hfirst⟩ := flushedTo_flushPage hsound hapart address
      have hmid := sound_flushPage hsound address
      rw [perform_forM_cons]
      revert hfirst hmid
      rcases (flushPage address).perform store with ⟨result, mid⟩
      intro hfirst hmid
      cases result with
      | error error => exact ⟨done, hfirst.stopped rest⟩
      | ok _ =>
          have hapart' : mid.catalog.Apart mid.log.location := by
            rw [hfirst.catalog, hfirst.location]
            exact hapart
          obtain ⟨later, hrest⟩ := ih hmid hapart'
          exact ⟨done ++ later, .append hapart hfirst hrest⟩

/-! ## Locks -/

theorem locks_flushPage (address : PageAddress) (store : Store) :
    ((flushPage address).perform store).2.pool.locks = store.pool.locks := by
  rcases flushPage_cases address store with ⟨result, hflush, -⟩ | ⟨error, owner, record, hflush⟩ |
    ⟨frame, owner, record, disk, -, -, -, hflush⟩
  · rw [hflush]
  · rw [hflush]
    rfl
  · rw [hflush]
    rfl

/-- Work on pages that leaves the locks alone leaves them alone wherever it stops. -/
theorem locks_forM {work : PageAddress → Action Unit}
    (hwork : ∀ address store, ((work address).perform store).2.pool.locks = store.pool.locks)
    (addresses : List PageAddress) (store : Store) :
    ((addresses.forM work).perform store).2.pool.locks = store.pool.locks :=
  related_forM (fun before after => after.pool.locks = before.pool.locks) (fun _ => rfl)
    (fun hfirst hsecond => hsecond.trans hfirst) (fun address _ => hwork address) store

/-- Pages and files do not depend on locks. -/
theorem FlushedTo.withLocks {targets : PageAddress → Prop} {done : List PageAddress}
    {result : Except StoreError Unit} (hflushed : store.FlushedTo targets done result after)
    (locks : LockTable) : store.FlushedTo targets done result (after.withLocks locks) where
  meant := hflushed.meant
  all := hflushed.all
  once := hflushed.once
  settled := hflushed.settled
  spared := fun address hout =>
    have hspares := hflushed.spared address hout
    ⟨hspares.cached, hspares.catalog, hspares.location, hspares.filed⟩
  files := hflushed.files
  catalog := hflushed.catalog
  location := hflushed.location
  records := hflushed.records

/-- The page is cached with changes of this transaction. -/
def DirtyFor (store : Store) (tid : TransactionId) (address : PageAddress) : Prop :=
  ∃ frame, store.pool.find? address = some frame ∧ frame.page.owner = some tid

theorem DirtyFor.dirty (hdirty : store.DirtyFor tid address) : store.Dirty address := by
  obtain ⟨frame, hfind, howner⟩ := hdirty
  exact ⟨frame, tid, hfind, howner⟩

theorem mem_dirtiedBy (hsound : store.Sound) :
    address ∈ store.pool.dirtiedBy tid ↔ store.DirtyFor tid address := by
  constructor
  · intro hmem
    obtain ⟨frame, owner, hfind, -⟩ := dirty_of_mem_dirtiedBy hsound hmem
    obtain ⟨hframe, rfl⟩ := hsound.pool.find?_eq_some_iff.mp hfind
    exact ⟨frame, hfind, (mem_dirtiedBy_iff hsound hframe).mp hmem⟩
  · rintro ⟨frame, hfind, howner⟩
    obtain ⟨hframe, rfl⟩ := hsound.pool.find?_eq_some_iff.mp hfind
    exact (mem_dirtiedBy_iff hsound hframe).mpr howner

end Store

/-! ## The calls -/

/-- A call that flushes pages. -/
inductive Flush where
  | page (address : PageAddress)
  | pagesOf (tid : TransactionId)
  | all
  | complete (tid : TransactionId)

namespace Flush

open Store

/-- What the call does. -/
def action : Flush → Action Unit
  | page address => flushPage address
  | pagesOf tid => flushPagesOf tid
  | all => flushAll
  | complete tid => Store.complete tid true

/-- The pages that the call comes to, in the order of their addresses. -/
def pages (store : Store) : Flush → List PageAddress
  | page address => [address]
  | pagesOf tid => store.pool.dirtiedBy tid
  | all => inOrder PageAddress.precedes store.pool.cached
  | complete tid => store.pool.dirtiedBy tid

/-- The call with its pages in this order. -/
def actionIn (order : List PageAddress) : Flush → Action Unit
  | complete tid => completeIn order tid true
  | _ => order.forM flushPage

/-- The changed pages that the call is to flush. -/
def Targets (store : Store) : Flush → PageAddress → Prop
  | page wanted => fun address => address = wanted ∧ store.Dirty address
  | pagesOf tid => store.DirtyFor tid
  | all => store.Dirty
  | complete tid => store.DirtyFor tid

/-- The locks after the call: the transaction that it ends has none left, and all others keep
theirs.  A call that fails, or that ends no transaction, leaves all locks as they are. -/
def Unlocks (store : Store) : Flush → Except StoreError Unit → Store → Prop
  | complete tid, .ok (), after => ∀ page who,
      after.pool.locks.mode? page who = if who = tid then none else store.pool.locks.mode? page who
  | _, _, after => after.pool.locks = store.pool.locks

variable {store : Store} {order : List PageAddress}

theorem perform_action (flush : Flush) (store : Store) :
    flush.action.perform store = (flush.actionIn (flush.pages store)).perform store := by
  cases flush with
  | page address =>
      show (flushPage address).perform store = ([address].forM flushPage).perform store
      rw [perform_forM_cons]
      rcases (flushPage address).perform store with ⟨result, after⟩
      cases result with
      | error error => rfl
      | ok _ => rfl
  | pagesOf tid => rfl
  | all => rfl
  | complete tid => exact perform_complete_eq tid true store

theorem dirtyIn_iff (hsound : store.Sound) (flush : Flush)
    (horder : order.Perm (flush.pages store)) (address : PageAddress) :
    store.DirtyIn order address ↔ flush.Targets store address := by
  have hchanged : ∀ tid, (address ∈ store.pool.dirtiedBy tid ∧ store.Dirty address) ↔
      store.DirtyFor tid address := by
    intro tid
    rw [mem_dirtiedBy hsound]
    exact and_iff_left_of_imp DirtyFor.dirty
  rw [DirtyIn, horder.mem_iff]
  cases flush with
  | page wanted => simp only [pages, List.mem_singleton, Targets]
  | pagesOf tid => exact hchanged tid
  | complete tid => exact hchanged tid
  | all =>
      rw [pages, (perm_inOrder _ _).mem_iff]
      refine ⟨fun htarget => htarget.2, fun hdirty => ⟨?_, hdirty⟩⟩
      obtain ⟨frame, owner, hfind, -⟩ := hdirty
      obtain ⟨hframe, haddress⟩ := hsound.pool.find?_eq_some_iff.mp hfind
      exact List.mem_map.mpr ⟨frame, hframe, haddress⟩

theorem unlocks (horderly : store.Orderly) (flush : Flush) (order : List PageAddress) :
    flush.Unlocks store ((flush.actionIn order).perform store).1
      ((flush.actionIn order).perform store).2 := by
  have hwalk := locks_forM locks_flushPage order store
  cases flush with
  | complete tid =>
      simp only [actionIn, perform_completeIn, if_true]
      revert hwalk
      rcases (order.forM flushPage).perform store with ⟨result, mid⟩
      intro hwalk
      cases result with
      | error error => exact hwalk
      | ok _ =>
          intro page who
          show (mid.pool.locks.releaseAll tid).mode? page who = _
          rw [hwalk, LockTable.mode?_releaseAll horderly.locks]
  | page address => exact hwalk
  | pagesOf tid => exact hwalk
  | all => exact hwalk

theorem flushedTo (hsound : store.Sound) (hapart : store.catalog.Apart store.log.location)
    (flush : Flush) (horder : order.Perm (flush.pages store)) :
    ∃ done, store.FlushedTo (flush.Targets store) done ((flush.actionIn order).perform store).1
      ((flush.actionIn order).perform store).2 := by
  have htargets : store.DirtyIn order = flush.Targets store :=
    funext fun address => propext (dirtyIn_iff hsound flush horder address)
  obtain ⟨done, hwalk⟩ := flushedTo_forM hsound hapart order
  rw [htargets] at hwalk
  refine ⟨done, ?_⟩
  cases flush with
  | complete tid =>
      simp only [actionIn, perform_completeIn, if_true]
      revert hwalk
      rcases (order.forM flushPage).perform store with ⟨result, mid⟩
      intro hwalk
      cases result with
      | error error => exact hwalk
      | ok _ => exact hwalk.withLocks _
  | page address => exact hwalk
  | pagesOf tid => exact hwalk
  | all => exact hwalk

/-- In every store that comes about: a call that flushes pages, in any order, has flushed some of
the pages that it is to flush and left the others as they were, whether it succeeds or fails; if it
succeeds it has flushed all of them.  The calls take their pages in the order of the addresses. -/
theorem flush_all_or_nothing (hreached : Reached store)
    (hapart : store.catalog.Apart store.log.location) (flush : Flush) :
    flush.action.perform store = (flush.actionIn (flush.pages store)).perform store ∧
      ∀ order result after, order.Perm (flush.pages store) →
        (flush.actionIn order).perform store = (result, after) →
          (∃ done, store.FlushedTo (flush.Targets store) done result after) ∧
            flush.Unlocks store result after := by
  refine ⟨perform_action flush store, ?_⟩
  intro order result after horder hflush
  have hflushed := flushedTo hreached.sound hapart flush horder
  have hunlocks := unlocks hreached.orderly flush order
  rw [hflush] at hflushed hunlocks
  exact ⟨hflushed, hunlocks⟩

/-- The end of a transaction that has changed a page of each of two tables, of which one is no
longer registered. -/
theorem flush_all_or_nothing_halfRegistered :
    (Flush.complete 1).action.perform halfRegistered
        = ((Flush.complete 1).actionIn ((Flush.complete 1).pages halfRegistered)).perform
          halfRegistered ∧
      ∀ order result after, order.Perm ((Flush.complete 1).pages halfRegistered) →
        ((Flush.complete 1).actionIn order).perform halfRegistered = (result, after) →
          (∃ done, halfRegistered.FlushedTo ((Flush.complete 1).Targets halfRegistered) done result
            after) ∧ (Flush.complete 1).Unlocks halfRegistered result after :=
  flush_all_or_nothing (opened_sample.reached.run _) (by decide +kernel) (.complete 1)

end Flush

end HeapStore
