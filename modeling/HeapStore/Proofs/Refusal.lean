import HeapStore.Proofs.Abort
import HeapStore.Proofs.Opening
import HeapStore.Proofs.Search
import HeapStore.Proofs.Writing

/-!
# Refused changes

An insert or a delete can fail at every page that it comes to: the page is locked, no room can be
made in the cache, the file cannot be written or has not got the page, or the row does not go in.
By then pages may have been locked and evicted and the table may have grown.  `refusal_untouched`
says what is left of it: at most one lock more for the transaction, and after an insert at most one
page of zeros more in the table.
-/

namespace HeapStore

namespace PlainStore

variable {plain : PlainStore} {tid : TransactionId} {table : Table} {may : TableId → Prop}

/-- A store after a refused change: at most one lock came, and at most one page of zeros to one of
these tables. -/
inductive Refused (plain : PlainStore) (tid : TransactionId) (may : TableId → Prop) :
    PlainStore → Prop
  | locked {address : PageAddress} {locks : LockTable}
      (hgains : plain.locks.Gains tid (· = address) locks) :
      Refused plain tid may (plain.withLocks locks)
  | grown {id : TableId} {table : Table} {content : Content} {address : PageAddress}
      {locks : LockTable} (hmay : may id) (htable : plain.catalog.table id = .ok table)
      (hwritten : table.Written (plain.disk.content table.location)
        (table.pageCount (plain.disk.content table.location)) (Bytes.zeros table.pageSize) content)
      (hgains : plain.locks.Gains tid (· = address) locks) :
      Refused plain tid may ((plain.withContent table content).withLocks locks)

theorem Refused.refl (hlocks : plain.locks.Sound) (tid : TransactionId) (may : TableId → Prop) :
    Refused plain tid may plain :=
  .locked (.refl hlocks (· = ⟨0, 0⟩))

theorem refused_of_roomed {outcome : Outcome Page} {id : TableId}
    (hroomed : Roomed plain tid table outcome) (htable : plain.catalog.table id = .ok table)
    (hmay : may id) : Refused plain tid may outcome.2 := by
  cases hroomed with
  | found _ _ _ _ hgains _ => exact .locked hgains
  | refused hgains => exact .locked hgains
  | grown hcount _ hwritten hgains _ => exact .grown hmay htable (hcount ▸ hwritten) hgains

/-- The rows, the log and all files but that of a table that may grow are as they were. -/
structure Leaves (plain : PlainStore) (may : TableId → Prop) (after : PlainStore) : Prop where
  changed : after.changed = plain.changed
  catalog : after.catalog = plain.catalog
  log : after.log = plain.log
  rows : plain.catalog.rows after.disk = plain.catalog.rows plain.disk
  logContent : after.disk.content plain.log.location = plain.disk.content plain.log.location
  files : ∀ id table, plain.catalog.table id = .ok table →
    after.disk.content table.location = plain.disk.content table.location ∨
      (may id ∧ table.Written (plain.disk.content table.location)
        (table.pageCount (plain.disk.content table.location)) (Bytes.zeros table.pageSize)
        (after.disk.content table.location))

theorem Refused.leaves {after : PlainStore} (hrefused : plain.Refused tid may after)
    (hsound : plain.Sound) (hsmall : plain.catalog.Small plain.disk) :
    plain.Leaves may after ∧ ∃ page, plain.locks.Gains tid (· = page) after.locks := by
  cases hrefused with
  | locked hgains => exact ⟨⟨rfl, rfl, rfl, rfl, rfl, fun _ _ _ => Or.inl rfl⟩, _, hgains⟩
  | @grown id table content address locks hmay htable hwritten hgains =>
      refine ⟨⟨rfl, rfl, rfl, ?_, ?_, ?_⟩, address, hgains⟩
      · exact Catalog.rows_of_appended hsound.catalog hsmall htable hwritten
      · exact Disk.content_write_other _ (hsound.apart.of_table htable).symm _
      · intro other grown hother
        by_cases hid : other = id
        · subst hid
          obtain rfl := Except.ok.inj (hother.symm.trans htable)
          refine Or.inr ⟨hmay, ?_⟩
          show grown.Written _ _ _
            ((plain.disk.write grown.location content).content grown.location)
          rw [Disk.content_write_same _ (hsound.catalog.location_of_table htable)]
          exact hwritten
        · exact Or.inl (Disk.content_write_other _
            (hsound.catalog.location_ne hother htable hid) _)

end PlainStore

namespace Store

open HeapStore.Action

variable {store after : Store} {changed still : List Page} {tid : TransactionId} {id : TableId}
  {row : Row} {error : StoreError} {may : TableId → Prop}

/-! ## Orderly runs -/

theorem orderly_turn (horderly : store.Orderly) (turn : Turn) : (store.turn turn).2.Orderly := by
  cases turn with
  | step operation => exact orderly_step horderly operation
  | commit tid order =>
      have hwalk := (keeps_forM (fun _ h address => keeps_flushPage h address) order horderly).1
      show ((commitIn order tid).perform store).2.Orderly
      rw [perform_commitIn]
      revert hwalk
      rcases (order.forM flushPage).perform store with ⟨result, mid⟩
      intro hkeeps
      cases result with
      | error error =>
          rcases ends_finish hkeeps.orderly tid false with ⟨-, hlast⟩ | ⟨-, hlast⟩
          · exact hlast.orderly
          · exact hlast.orderly
      | ok _ =>
          have hsound : mid.Sound := hkeeps.orderly.sound
          have hlocks : mid.pool.locks.Sound := hkeeps.orderly.locks
          show ((mid.withLocks (mid.pool.locks.releaseAll tid)).logged tid .commit).Orderly
          exact ⟨⟨(sound_withLocks hsound _).pool, hsound.catalog⟩,
            LockTable.sound_releaseAll hlocks tid⟩

theorem orderly_follow (turns : List Turn) (horderly : store.Orderly) :
    (store.follow turns).Orderly := by
  induction turns generalizing store with
  | nil => exact horderly
  | cons turn turns ih => exact ih (orderly_turn horderly turn)

/-! ## What is left of a refused change -/

theorem failed_of_map {α β : Type} {result : Except StoreError α} {give : α → β}
    (hfailed : result.map give = .error error) : result = .error error := by
  cases result with
  | error failure => exact congrArg Except.error (Except.error.inj hfailed)
  | ok _ => exact absurd hfailed (by simp [Except.map])

theorem perform_of_failed {α : Type} {action : Action α}
    (hfailed : (action.perform store).1 = .error error) :
    action.perform store = (.error error, (action.perform store).2) :=
  Prod.ext hfailed rfl

/-- An insert that fails has placed no row, and leaves a refused store behind. -/
theorem refused_insertRow (hcoherent : Coherent store changed) (horderly : store.Orderly)
    (hsmall : store.catalog.Small store.disk) (hmay : may id)
    (hinsert : (insertRow tid id row).perform store = (.error error, after)) :
    (∃ still, Coherent after still ∧ (store.plain changed).Refused tid may (after.plain still)) ∧
      ∀ table, store.catalog.table id = .ok table →
        (placeRow tid table row).perform store = (.error error, after) := by
  have hlocks : (store.plain changed).locks.Sound := horderly.locks
  rw [perform_insertRow] at hinsert
  cases htable : store.catalog.table id with
  | error failure =>
      rw [htable] at hinsert
      obtain ⟨-, rfl⟩ := Prod.mk.inj hinsert
      exact ⟨⟨changed, hcoherent, .refl hlocks tid may⟩, fun _ hother => absurd hother (by simp)⟩
  | ok table =>
      rw [htable] at hinsert
      simp only at hinsert
      have hplaced : (∃ still, Coherent after still ∧
            (store.plain changed).Refused tid may (after.plain still)) ∧
          (placeRow tid table row).perform store = (.error error, after) := by
        rw [perform_placeRow]
        split at hinsert
        · rename_i hcompatible
          rw [if_pos hcompatible]
          have hagree := room_agree hcoherent hsmall tid htable
          have hrefused := PlainStore.refused_of_roomed
            (PlainStore.roomed_room hlocks tid table) htable hmay
          revert hagree hrefused hinsert
          generalize store.room tid table = real
          generalize (store.plain changed).room tid table = outcome
          intro hinsert hagree hrefused
          cases hagree with
          | error hafter =>
              cases hinsert
              exact ⟨⟨_, hafter, hrefused⟩, rfl⟩
          | ok hafter hshows =>
              rename_i frame page mid still
              simp only at hinsert ⊢
              rw [perform_insertInto]
              cases hrow : frame.page.insert row with
              | error failure =>
                  rw [hrow] at hinsert
                  cases hinsert
                  exact ⟨⟨still, hafter, hrefused⟩, rfl⟩
              | ok placed =>
                  rw [hrow] at hinsert
                  exact absurd (Prod.mk.inj hinsert).1 (by simp)
        · rename_i hcompatible
          rw [if_neg hcompatible]
          cases hinsert
          exact ⟨⟨changed, hcoherent, .refl hlocks tid may⟩, rfl⟩
      refine ⟨hplaced.1, ?_⟩
      intro other hother
      obtain rfl := Except.ok.inj hother
      exact hplaced.2

/-- A delete that fails leaves a refused store behind. -/
theorem refused_deleteRow (hcoherent : Coherent store changed) (horderly : store.Orderly)
    (hsmall : store.catalog.Small store.disk) (may : TableId → Prop)
    (hdelete : (deleteRow tid row).perform store = (.error error, after)) :
    ∃ still, Coherent after still ∧ (store.plain changed).Refused tid may (after.plain still) := by
  have hlocks : (store.plain changed).locks.Sound := horderly.locks
  have hsame : ∀ {failure : StoreError}, ((.error failure, store) : Except StoreError Unit × Store)
      = (.error error, after) →
        ∃ still, Coherent after still ∧
          (store.plain changed).Refused tid may (after.plain still) := by
    intro failure hstore
    obtain ⟨-, rfl⟩ := Prod.mk.inj hstore
    exact ⟨changed, hcoherent, .refl hlocks tid may⟩
  rw [perform_deleteRow] at hdelete
  split at hdelete
  · exact hsame hdelete
  · rename_i place haddress
    split at hdelete
    · exact hsame hdelete
    · split at hdelete
      · exact hsame hdelete
      · have hagree := getPage_agree hcoherent tid place.page .readWrite (Or.inl hsmall)
        have hrefused : (store.plain changed).Refused tid may
            ((store.plain changed).getPage tid place.page .readWrite).2 := by
          obtain ⟨locks, hlocked, hgains⟩ :=
            PlainStore.gains_getPage hlocks tid place.page .readWrite
          rw [hlocked]
          exact .locked hgains
        revert hdelete hagree hrefused
        generalize (getPage tid place.page .readWrite []).perform store = real
        generalize (store.plain changed).getPage tid place.page .readWrite = outcome
        intro hdelete hagree hrefused
        cases hagree with
        | error hafter =>
            cases hdelete
            exact ⟨_, hafter, hrefused⟩
        | ok hafter hshows =>
            rename_i frame page mid still
            simp only at hdelete
            cases hrow : frame.page.delete row with
            | error failure =>
                rw [hrow] at hdelete
                cases hdelete
                exact ⟨still, hafter, hrefused⟩
            | ok fewer =>
                rw [hrow] at hdelete
                exact absurd (Prod.mk.inj hdelete).1 (by simp)

/-- A refused change has left a store as it was. -/
structure Untouched (store : Store) (tid : TransactionId) (may : TableId → Prop) (after : Store) :
    Prop where
  /-- Every page reads with the same rows, below the limit of 32 bits. -/
  rows : after.catalog.Small after.disk → after.shown = store.shown
  /-- The same pages are changed, by the same transactions. -/
  dirty : ∀ who, after.pool.dirtiedBy who = store.pool.dirtiedBy who
  /-- The whole pages of the files keep their bytes. -/
  bytes : ∀ id table, store.catalog.table id = .ok table → ∀ number : UInt32,
    number.toNat < (store.tableContent table).size / table.pageSize →
      (after.tableContent table).slice (table.offset number) table.pageSize
        = (store.tableContent table).slice (table.offset number) table.pageSize
  /-- A file is as it was, or it is that of the table and has got a page of zeros. -/
  files : ∀ id table, store.catalog.table id = .ok table →
    after.tableContent table = store.tableContent table ∨
      (may id ∧ table.Written (store.tableContent table) (store.pageCount table)
        (Bytes.zeros table.pageSize) (after.tableContent table))
  catalog : after.catalog = store.catalog
  log : after.log = store.log
  logContent : after.logContent = store.logContent
  /-- The transaction has its locks, and at most one more. -/
  locks : ∃ page, store.pool.locks.Gains tid (· = page) after.pool.locks

theorem untouched_of_refused (hcoherent : Coherent store changed)
    (hsmall : store.catalog.Small store.disk) (hafter : Coherent after still)
    (hrefused : (store.plain changed).Refused tid may (after.plain still)) :
    store.Untouched tid may after := by
  obtain ⟨hleaves, page, hgains⟩ := hrefused.leaves hcoherent.sound hsmall
  have hcatalog : after.catalog = store.catalog := hleaves.catalog
  have hlog : after.log = store.log := hleaves.log
  refine ⟨?_, ?_, ?_, hleaves.files, hcatalog, hlog, ?_, page, hgains⟩
  · intro hstill
    rw [shown_eq_present hafter hstill, shown_eq_present hcoherent hsmall]
    funext place
    have hrows : after.catalog.rows after.disk = store.catalog.rows store.disk := by
      rw [hcatalog]
      exact hleaves.rows
    simp only [PlainStore.present, PlainStore.changed?, hleaves.changed]
    rw [plain_catalog, plain_disk, plain_catalog, plain_disk, hrows]
  · intro who
    rw [← hafter.dirtiedBy_eq, ← hcoherent.dirtiedBy_eq]
    simp only [PlainStore.dirtiedBy, hleaves.changed]
  · intro id table htable number hnumber
    rcases hleaves.files id table htable with hsame | ⟨-, hwritten⟩
    · exact congrArg (fun content : Content => content.slice _ _) hsame
    · apply hwritten.slice_other
      intro hlast
      have hcount := Table.pageCount_of_small (hsmall.of_table htable)
      rw [hlast] at hnumber
      exact absurd hnumber (Nat.not_lt.mpr (Nat.le_of_eq hcount.symm))
  · show after.disk.content after.log.location = store.disk.content store.log.location
    rw [hlog]
    exact hleaves.logContent

/-- An insert or a delete that fails, wherever it does, has left rows, changed pages, files and log
as they were, but for a page of zeros behind the table of an insert and one lock more for the
transaction.  An insert fails before its row has got a place. -/
theorem refusal_untouched {start : Store} {turns : List Turn} {operation : Operation}
    (hopened : Opened start) (hapart : start.catalog.Apart start.log.location)
    (hfixed : ∀ turn ∈ turns, turn.operation.Fixed) (hadmits : start.Admits turns)
    (hchange : (∃ id row, operation = .insert tid id row) ∨ ∃ row, operation = .delete tid row)
    (hrefused : (start.follow turns).answer operation = .error error) :
    (start.follow turns).Untouched tid operation.grows ((start.follow turns).step operation).2 ∧
      ∀ id row table, operation = .insert tid id row →
        (start.follow turns).catalog.table id = .ok table →
          (placeRow tid table row).perform (start.follow turns)
            = (.error error, ((start.follow turns).step operation).2) := by
  obtain ⟨changed, hcoherent, -⟩ :=
    coherent_follow turns (hopened.fresh.coherent hapart) hopened.begun.size hadmits hfixed
  have horderly := orderly_follow turns hopened.fresh.exclusive.orderly
  have hsmall := hadmits.last
  revert hcoherent horderly hsmall hrefused
  generalize start.follow turns = store
  intro hrefused hcoherent horderly hsmall
  rcases hchange with ⟨id, row, rfl⟩ | ⟨row, rfl⟩
  · rw [answer, step_insert] at hrefused
    have hinsert := perform_of_failed (failed_of_map (failed_of_map hrefused))
    obtain ⟨⟨still, hafter, hleft⟩, hplaced⟩ :=
      refused_insertRow hcoherent horderly hsmall (show (id = ·) id from rfl) hinsert
    rw [step_insert]
    refine ⟨untouched_of_refused hcoherent hsmall hafter hleft, ?_⟩
    rintro other tuple table hsame htable
    cases hsame
    exact hplaced table htable
  · rw [answer, step_delete] at hrefused
    have hdelete := perform_of_failed (failed_of_map (failed_of_map hrefused))
    obtain ⟨still, hafter, hleft⟩ :=
      refused_deleteRow hcoherent horderly hsmall (fun _ => False) hdelete
    rw [step_delete]
    exact ⟨untouched_of_refused hcoherent hsmall hafter hleft,
      fun _ _ _ hsame => absurd hsame (by simp)⟩

/-- Two full pages, both changed, fill the cache.  The table grows by a page that cannot be had. -/
theorem refusal_untouched_sample :
    let turns := .step .begin :: [7, 8, 9, 10, 11, 12].map fun value =>
      .step (.insert 1 sampleTable (sampleRow value))
    let operation := .insert 1 sampleTable (sampleRow 13)
    let store := sample.follow turns
    store.answer operation = .error (.allPagesDirty 2) ∧
      store.Untouched 1 operation.grows (store.step operation).2 := by
  intro turns operation store
  have hrefused : store.answer operation = .error (.allPagesDirty 2) := by decide +kernel
  have hfixed : ∀ turn ∈ turns, turn.operation.Fixed := by
    simp [turns, Turn.operation, Operation.Fixed, valid_sampleRow]
  exact ⟨hrefused, (refusal_untouched opened_sample (by decide +kernel) hfixed (by decide +kernel)
    (Or.inl ⟨_, _, rfl⟩) hrefused).1⟩

end Store

end HeapStore
