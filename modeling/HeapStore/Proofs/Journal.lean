import HeapStore.Proofs.Exclusive
import HeapStore.Proofs.Fates
import HeapStore.Proofs.ReadBack

/-!
# Records that a turn leaves in the log

A store is followed here by its log alone, whatever becomes of its tables: they may grow beyond
what 32 bits can count, and then a page that was changed cannot be read again and an abort fails.
The pages in the cache keep the size of the catalog, so that their images have room in a record
(`Store.Sized`).  A turn that ends a transaction writes records of this transaction only, updates
and behind them at most how it ended; other turns write none (`Store.journals_turn`).
-/

namespace HeapStore

/-! ## Pages with room in a record -/

/-- The page is sound and has so many bytes, and had as many before it was changed. -/
structure Page.Sized (page : Page) (count : Nat) : Prop where
  sound : page.Sound
  size : page.size = count
  before : page.before.length = count

namespace Page.Sized

variable {page other : Page} {size : Nat} {row placed : Row}

theorem withOwner (hsized : page.Sized size) (owner : Option TransactionId) :
    (page.withOwner owner).Sized size :=
  ⟨sound_withOwner hsized.sound owner, hsized.size, hsized.before⟩

theorem settled (hsized : page.Sized size) : page.settled.Sized size := by
  refine ⟨sound_snapshot (sound_withOwner hsized.sound none), hsized.size, ?_⟩
  exact (length_bytes (sound_withOwner hsized.sound none)).trans hsized.size

theorem insert (hsized : page.Sized size) (hvalid : row.Valid)
    (hinsert : page.insert row = .ok (placed, other)) : other.Sized size := by
  obtain ⟨place, -, hinserted⟩ := inserted_of_insert hinsert
  refine ⟨hinserted.sound hsized.sound hvalid, ?_, ?_⟩
  · rw [hinserted.result]
    exact hsized.size
  · rw [hinserted.result]
    exact hsized.before

theorem delete (hsized : page.Sized size) (hdelete : page.delete row = .ok other) :
    other.Sized size := by
  obtain ⟨place, hdeleted⟩ := deleted_of_delete hdelete
  refine ⟨hdeleted.sound hsized.sound, ?_, ?_⟩
  · rw [hdeleted.result]
    exact hsized.size
  · rw [hdeleted.result]
    exact hsized.before

/-- The images of a page fit into a record. -/
theorem short (hsized : page.Sized size) (hsize : size ≤ maxPageSize) {former : Page}
    (hformer : page.beforeImage = .ok former) (tid : TransactionId) :
    Mark.Short (tid, .update page.address former.bytes page.bytes) := by
  have hread := readFrom_of_parse hformer
  apply short_update
  · rwa [length_bytes hread.sound, hread.size, hsized.before]
  · rwa [length_bytes hsized.sound, hsized.size]

end Page.Sized

/-- A page that was read has the size of the catalog. -/
theorem Catalog.Sound.sized_of_read {catalog : Catalog} (hsound : catalog.Sound) {disk : Disk}
    {address : PageAddress} {page : Page} (hread : catalog.read disk address = .ok page) :
    page.Sized catalog.pageSize := by
  obtain ⟨table, htable, hfile⟩ := Catalog.table_of_read hread
  obtain ⟨-, hpage, hsize⟩ := Table.of_filed? (Table.filed?_of_readPage hfile).2
  have hcatalog : page.size = catalog.pageSize := hsize.trans (hsound.pageSize_of_table htable)
  exact ⟨hpage.sound, hcatalog, by rw [hpage.before, ← hpage.size, hcatalog]⟩

namespace Store

open HeapStore.Action

variable {store mid after : Store} {tid : TransactionId} {address : PageAddress}
  {marks later : List Mark}

/-! ## What is written to the log -/

/-- The log has a file of its own, and the pages in the cache have room in its records. -/
structure Sized (store : Store) : Prop where
  sound : store.Sound
  location : store.log.location ≠ []
  apart : store.catalog.Apart store.log.location
  size : store.catalog.pageSize ≤ maxPageSize
  pages : ∀ frame ∈ store.pool.resident, frame.page.Sized store.catalog.pageSize

/-- These records came to those in the log, each behind the last one of its transaction. -/
structure Journals (store : Store) (marks : List Mark) (after : Store) : Prop where
  sized : after.Sized
  catalog : after.catalog = store.catalog
  next : after.nextTransaction = store.nextTransaction
  location : after.log.location = store.log.location
  log : ∀ front entries, store.log.Extends front store.logContent entries →
    ∃ new, after.log.Extends front after.logContent (entries ++ new) ∧
      new.map LogEntry.mark = marks ∧ Log.Chained store.log.last new ∧
      after.log.last = Log.chains store.log.last new

theorem Journals.trans (hfirst : store.Journals marks mid) (hsecond : mid.Journals later after) :
    store.Journals (marks ++ later) after where
  sized := hsecond.sized
  catalog := hsecond.catalog.trans hfirst.catalog
  next := hsecond.next.trans hfirst.next
  location := hsecond.location.trans hfirst.location
  log := by
    intro front entries hextends
    obtain ⟨new, hmid, hmarks, hchained, hlast⟩ := hfirst.log front entries hextends
    obtain ⟨more, hafter, hmore, hthen, hend⟩ := hsecond.log front _ hmid
    rw [hlast] at hthen hend
    refine ⟨new ++ more, ?_, ?_, Log.chained_append.mpr ⟨hchained, hthen⟩, ?_⟩
    · rw [← List.append_assoc]
      exact hafter
    · rw [List.map_append, hmarks, hmore]
    · rw [hend, Log.chains_append]

theorem Journals.then_nothing (hfirst : store.Journals marks mid)
    (hsecond : mid.Journals [] after) : store.Journals marks after := by
  have hboth := hfirst.trans hsecond
  rwa [List.append_nil] at hboth

namespace Sized

/-- Nothing is written where the log and its file stay. -/
theorem silent (hsized : store.Sized) (hafter : after.Sound)
    (hpages : ∀ frame ∈ after.pool.resident, frame.page.Sized store.catalog.pageSize)
    (hcatalog : after.catalog = store.catalog)
    (hnext : after.nextTransaction = store.nextTransaction) (hlog : after.log = store.log)
    (hcontent : after.disk.content store.log.location = store.logContent) :
    store.Journals [] after where
  sized := {
    sound := hafter
    location := by rw [hlog]; exact hsized.location
    apart := by rw [hlog, hcatalog]; exact hsized.apart
    size := by rw [hcatalog]; exact hsized.size
    pages := by rw [hcatalog]; exact hpages }
  catalog := hcatalog
  next := hnext
  location := by rw [hlog]
  log := by
    intro front entries hextends
    refine ⟨[], ?_, rfl, trivial, by rw [hlog]; rfl⟩
    rw [logContent, hlog, hcontent, List.append_nil]
    exact hextends

theorem refl (hsized : store.Sized) : store.Journals [] store :=
  hsized.silent hsized.sound hsized.pages rfl rfl rfl rfl

theorem withPool (hsized : store.Sized) {pool : Pool} (hpool : pool.Sound)
    (hpages : ∀ frame ∈ pool.resident, frame.page.Sized store.catalog.pageSize) :
    store.Journals [] (store.withPool pool) :=
  hsized.silent (sound_withPool hsized.sound hpool) hpages rfl rfl rfl rfl

theorem withLocks (hsized : store.Sized) (locks : LockTable) :
    store.Journals [] (store.withLocks locks) :=
  hsized.silent (sound_withLocks hsized.sound locks) hsized.pages rfl rfl rfl rfl

/-- A frame that gets another page of the same size stands in the cache as before. -/
theorem replaced (hsized : store.Sized) (frame : Frame) {page : Page}
    (hpage : page.Sized store.catalog.pageSize) :
    ∀ other ∈ (store.pool.replace frame.stamp page).resident,
      other.page.Sized store.catalog.pageSize := by
  intro other hother
  rcases Pool.mem_replace.mp hother with ⟨hother, -⟩ | ⟨rfl, -⟩
  · exact hsized.pages other hother
  · exact hpage

theorem replace (hsized : store.Sized) {frame : Frame} (hframe : frame ∈ store.pool.resident)
    {page : Page} (haddress : page.address = frame.page.address)
    (hpage : page.Sized store.catalog.pageSize) :
    store.Journals [] (store.withPool (store.pool.replace frame.stamp page)) :=
  hsized.withPool (Pool.sound_replace hsized.sound.pool hframe haddress)
    (hsized.replaced frame hpage)

/-- A record that is written is the last one of the log. -/
theorem logged (hsized : store.Sized) {record : LogRecord} (hshort : Mark.Short (tid, record)) :
    store.Journals [(tid, record)] (store.logged tid record) where
  sized := ⟨⟨hsized.sound.pool, hsized.sound.catalog⟩, hsized.location, hsized.apart, hsized.size,
    hsized.pages⟩
  catalog := rfl
  next := rfl
  location := rfl
  log := by
    intro front entries hextends
    have hfiles : (Files.mk store.log store.disk).log.Extends front
        (store.disk.content store.log.location) entries := hextends
    obtain ⟨entry, hlonger, hmark, hchained, hlast⟩ :=
      Files.extends_marked hsized.location hfiles hshort
    exact ⟨[entry], hlonger, by rw [List.map_singleton, hmark], hchained, hlast⟩

/-! ## Pages -/

theorem fetch (hsized : store.Sized) (address : PageAddress) (latched : List Nat) :
    store.Journals [] (store.fetch address latched).2 := by
  unfold Store.fetch
  split
  · exact hsized.refl
  · rename_i hfind
    split
    · exact hsized.refl
    · rename_i pool hmade
      have hroom := Pool.roomier_of_makeRoom hsized.sound.pool hmade
      have hkept : ∀ frame ∈ pool.resident, frame.page.Sized store.catalog.pageSize :=
        fun frame hframe => hsized.pages frame (hroom.kept frame hframe)
      split
      · exact hsized.withPool hroom.sound hkept
      · rename_i page hread
        have hnew : page.address ∉ pool.cached := by
          rw [address_of_read hread]
          exact hroom.not_mem_cached hfind
        apply hsized.withPool (Pool.sound_load hroom.sound hnew hroom.room)
        intro frame hframe
        rcases List.mem_append.mp hframe with hframe | hframe
        · exact hkept frame hframe
        · rw [List.mem_singleton.mp hframe]
          exact hsized.sound.catalog.sized_of_read hread

theorem getPage (hsized : store.Sized) (tid : TransactionId) (address : PageAddress)
    (access : Access) (latched : List Nat) :
    store.Journals [] ((getPage tid address access latched).perform store).2 := by
  rw [perform_getPage]
  split
  · exact hsized.refl
  · rename_i locks _
    have hlocked := hsized.withLocks locks
    exact hlocked.then_nothing (hlocked.sized.fetch address latched)

theorem evictPage (hsized : store.Sized) (latched : List Nat) :
    store.Journals [] ((evictPage latched).perform store).2 := by
  rw [perform_evictPage]
  rcases store.pool.evict_cases latched with ⟨victim, -, -, hevict⟩ | ⟨error, hevict, -⟩
  · rw [hevict]
    apply hsized.withPool (Pool.sound_depart hsized.sound.pool _)
    exact fun frame hframe => hsized.pages frame (Pool.mem_depart.mp hframe).1
  · rw [hevict]
    exact hsized.refl

/-! ## Rows -/

theorem seek (hsized : store.Sized) (tid : TransactionId) (table : Table) (count number : Nat) :
    store.Journals [] (seek tid table count number store).2 :=
  related_seek (fun before after => before.Sized → before.Journals [] after) (fun _ h => h.refl)
    (fun hfirst hsecond hstore => (hfirst hstore).then_nothing (hsecond (hfirst hstore).sized))
    (fun address _ hstore => hstore.getPage tid address .readWrite [])
    (fun locks _ hstore => hstore.withLocks locks) table count number store hsized

/-- A table that grows is in another file than the log. -/
theorem growTable (hsized : store.Sized) {id : TableId} {table : Table}
    (htable : store.catalog.table id = .ok table) :
    store.Journals [] ((growTable table).perform store).2 := by
  rw [perform_growTable]
  cases table.appendPage store.armed (store.disk.content table.location) with
  | error error => exact hsized.refl
  | ok grown =>
      obtain ⟨address, content⟩ := grown
      exact hsized.silent ⟨hsized.sound.pool, hsized.sound.catalog⟩ hsized.pages rfl rfl rfl
        (Disk.content_write_other _ (hsized.apart.of_table htable).symm _)

theorem room (hsized : store.Sized) (tid : TransactionId) {id : TableId} {table : Table}
    (htable : store.catalog.table id = .ok table) :
    store.Journals [] (store.room tid table).2 := by
  refine related_room (fun before after => before.Sized → before.catalog.table id = .ok table →
    before.Journals [] after) ?_ table ?_ ?_ ?_ store hsized htable
  · intro first mid last hfirst hsecond hstore hregistered
    have hmid := hfirst hstore hregistered
    exact hmid.then_nothing (hsecond hmid.sized (by rw [hmid.catalog]; exact hregistered))
  · exact fun count number _ hstore _ => hstore.seek tid table count number
  · exact fun _ hstore hregistered => hstore.growTable hregistered
  · exact fun address _ hstore _ => hstore.getPage tid address .readWrite []

theorem insertRow (hsized : store.Sized) (tid : TransactionId) (id : TableId) {row : Row}
    (hvalid : row.Valid) : store.Journals [] ((insertRow tid id row).perform store).2 := by
  rw [perform_insertRow]
  split
  · exact hsized.refl
  · rename_i table htable
    split
    · have hroom := hsized.room tid htable
      have hframes := (sound_room tid table hsized.sound).2
      revert hroom hframes
      rcases store.room tid table with ⟨result, mid⟩
      intro hroom hframes
      cases result with
      | error error => exact hroom
      | ok frame =>
          simp only
          split
          · exact hroom
          · rename_i placed page hinsert
            have hframe := hframes frame rfl
            have hpage := ((hroom.sized.pages frame hframe).insert hvalid hinsert).withOwner
              (some tid)
            obtain ⟨place, -, hinserted⟩ := Page.inserted_of_insert hinsert
            have haddress : (page.withOwner (some tid)).address = frame.page.address := by
              rw [hinserted.result]
              rfl
            exact hroom.then_nothing (hroom.sized.replace hframe haddress hpage)
    · exact hsized.refl

theorem deleteRow (hsized : store.Sized) (tid : TransactionId) (row : Row) :
    store.Journals [] ((deleteRow tid row).perform store).2 := by
  rw [perform_deleteRow]
  split
  · exact hsized.refl
  · rename_i place _
    split
    · exact hsized.refl
    · split
      · exact hsized.refl
      · have hgot := hsized.getPage tid place.page .readWrite []
        have hframes := (sound_getPage hsized.sound tid place.page .readWrite []).2
        revert hgot hframes
        rcases (Store.getPage tid place.page .readWrite []).perform store with ⟨result, mid⟩
        intro hgot hframes
        cases result with
        | error error => exact hgot
        | ok frame =>
            simp only
            split
            · exact hgot
            · rename_i page hdelete
              have hframe := hframes frame rfl
              have hpage := ((hgot.sized.pages frame hframe).delete hdelete).withOwner (some tid)
              obtain ⟨place', hdeleted⟩ := Page.deleted_of_delete hdelete
              have haddress : (page.withOwner (some tid)).address = frame.page.address := by
                rw [hdeleted.result]
                rfl
              exact hgot.then_nothing (hgot.sized.replace hframe haddress hpage)

theorem scanPages (hsized : store.Sized) (tid : TransactionId) (table : Table)
    (count number : Nat) : store.Journals [] (scanPages tid table count number store).2 :=
  related_scanPages (fun before after => before.Sized → before.Journals [] after)
    (fun _ h => h.refl)
    (fun hfirst hsecond hstore => (hfirst hstore).then_nothing (hsecond (hfirst hstore).sized))
    (fun address _ hstore => hstore.getPage tid address .readOnly [])
    table count number store hsized

theorem restorePage (hsized : store.Sized) (address : PageAddress) :
    store.Journals [] ((restorePage address).perform store).2 := by
  rw [perform_restorePage]
  split
  · exact hsized.refl
  · rename_i frame hfind
    split
    · exact hsized.refl
    · rename_i page hread
      obtain ⟨hframe, haddress⟩ := hsized.sound.pool.find?_eq_some_iff.mp hfind
      exact hsized.replace hframe ((address_of_read hread).trans haddress.symm)
        (hsized.sound.catalog.sized_of_read hread)

end Sized

/-! ## Flushes of a transaction -/

/-- Of these pages, none in the cache was changed by another transaction. -/
def Mine (store : Store) (tid : TransactionId) (order : List PageAddress) : Prop :=
  ∀ frame ∈ store.pool.resident, frame.page.address ∈ order →
    frame.page.owner = none ∨ frame.page.owner = some tid

theorem mine_dirtiedBy (hsound : store.Sound) {order : List PageAddress}
    (horder : order.Perm (store.pool.dirtiedBy tid)) : store.Mine tid order :=
  fun _ hframe haddress =>
    .inr ((mem_dirtiedBy_iff hsound hframe).mp (horder.mem_iff.mp haddress))

/-- These are updates of the transaction. -/
def Updating (tid : TransactionId) (marks : List Mark) : Prop :=
  ∀ mark ∈ marks, mark.1 = tid ∧ mark.2.isUpdate = true

theorem updating_nil (tid : TransactionId) : Updating tid [] :=
  fun _ hmark => absurd hmark List.not_mem_nil

/-- A flush writes at most one record, an update of the transaction that changed the page. -/
theorem Sized.flushPage (hsized : store.Sized) {order : List PageAddress}
    (hmine : store.Mine tid order) (haddress : address ∈ order) :
    (∃ marks, store.Journals marks ((Store.flushPage address).perform store).2 ∧
        Updating tid marks) ∧
      ((Store.flushPage address).perform store).2.Mine tid order := by
  rw [perform_flushPage]
  split
  · exact ⟨⟨[], hsized.refl, updating_nil tid⟩, hmine⟩
  · rename_i frame hfind
    obtain ⟨hframe, rfl⟩ := hsized.sound.pool.find?_eq_some_iff.mp hfind
    split
    · exact ⟨⟨[], hsized.refl, updating_nil tid⟩, hmine⟩
    · rename_i owner howner
      obtain rfl : owner = tid := by
        rcases hmine frame hframe haddress with hclean | hdirty
        · exact absurd (howner.symm.trans hclean) (by simp)
        · exact Option.some.inj (howner.symm.trans hdirty)
      rw [perform_flushFrame]
      split
      · exact ⟨⟨[], hsized.refl, updating_nil owner⟩, hmine⟩
      · rename_i former hformer
        have hpage := hsized.pages frame hframe
        have hlogged := hsized.logged (hpage.short hsized.size hformer owner)
        have hupdate : Updating owner
            [(owner, .update frame.page.address former.bytes frame.page.bytes)] :=
          List.forall_mem_singleton.mpr ⟨rfl, rfl⟩
        simp only
        split
        · exact ⟨⟨_, hlogged, hupdate⟩, hmine⟩
        · rename_i disk hwrite
          obtain ⟨-, -, table, content, htable, -, rfl⟩ := Catalog.of_write hwrite
          refine ⟨⟨_, hlogged.then_nothing ?_, hupdate⟩, ?_⟩
          -- the page goes to the file of its table, and is clean
          · have hsound := Pool.sound_replace hsized.sound.pool hframe
              (show frame.page.settled.address = frame.page.address from rfl)
            exact hlogged.sized.silent ⟨hsound, hsized.sound.catalog⟩
              (hsized.replaced frame hpage.settled) rfl rfl rfl
              (Disk.content_write_other _ (hsized.apart.of_table htable).symm _)
          · intro other hother hmem
            rcases Pool.mem_replace.mp hother with ⟨hother, -⟩ | ⟨rfl, -⟩
            · exact hmine other hother hmem
            · exact .inl rfl

/-- Flushes of pages of a transaction write updates of it, whether they succeed or not. -/
theorem Sized.flushes (hsized : store.Sized) {order : List PageAddress}
    (hmine : store.Mine tid order) (addresses : List PageAddress) (hsub : addresses ⊆ order) :
    ∃ marks, store.Journals marks ((addresses.forM Store.flushPage).perform store).2 ∧
      Updating tid marks := by
  induction addresses generalizing store with
  | nil => exact ⟨[], hsized.refl, updating_nil tid⟩
  | cons address addresses ih =>
      obtain ⟨haddress, hrest⟩ := List.cons_subset.mp hsub
      obtain ⟨⟨marks, hfirst, hupdates⟩, hstill⟩ := hsized.flushPage hmine haddress
      rw [perform_forM_cons]
      revert hfirst hstill
      rcases (Store.flushPage address).perform store with ⟨result, mid⟩
      intro hstill hfirst
      cases result with
      | error error => exact ⟨marks, hfirst, hupdates⟩
      | ok _ =>
          obtain ⟨later, hlater, hmore⟩ := ih hfirst.sized hstill hrest
          exact ⟨marks ++ later, hfirst.trans hlater, List.forall_mem_append.mpr ⟨hupdates, hmore⟩⟩

theorem Sized.restores (hsized : store.Sized) (addresses : List PageAddress) :
    store.Journals [] ((addresses.forM Store.restorePage).perform store).2 :=
  related_forM (fun before after => before.Sized → before.Journals [] after) (fun _ h => h.refl)
    (fun hfirst hsecond hstore =>
      (hfirst hstore).then_nothing (hsecond (hfirst hstore).sized))
    (fun address _ _ hstore => hstore.restorePage address) store hsized

/-! ## Ends of transactions -/

/-- Updates of the transaction, and behind them at most how it ended. -/
structure Ending (tid : TransactionId) (marks : List Mark) : Prop where
  own : ∀ mark ∈ marks, mark.1 = tid
  updates : ∀ mark ∈ marks.dropLast, mark.2.isUpdate = true

theorem Updating.ending (hupdates : Updating tid marks) (records : List LogRecord)
    (hrecords : records.length ≤ 1) : Ending tid (marks ++ marksOf tid records) := by
  constructor
  · intro mark hmark
    rcases List.mem_append.mp hmark with hmark | hmark
    · exact (hupdates mark hmark).1
    · obtain ⟨record, -, rfl⟩ := List.mem_map.mp hmark
      rfl
  · intro mark hmark
    match records, hrecords with
    | [], _ =>
        rw [marksOf, List.map_nil, List.append_nil] at hmark
        exact (hupdates mark (List.dropLast_subset marks hmark)).2
    | [record], _ =>
        rw [marksOf, List.map_singleton, List.dropLast_concat] at hmark
        exact (hupdates mark hmark).2

/-- The records with which a transaction ends are linked. -/
theorem Ending.linked {entries : List LogEntry} {last : List (TransactionId × Lsn)}
    (hending : Ending tid (entries.map LogEntry.mark)) (hchained : Log.Chained last entries) :
    Linked (last.lookup tid) entries := by
  induction entries generalizing last with
  | nil => trivial
  | cons entry rest ih =>
      obtain ⟨hprevious, hthen⟩ := hchained
      have htid : entry.transaction = tid := hending.own entry.mark List.mem_cons_self
      rw [htid] at hprevious
      refine ⟨hprevious, ?_⟩
      cases rest with
      | nil => trivial
      | cons next rest =>
          have hrest : Ending tid ((next :: rest).map LogEntry.mark) :=
            ⟨fun mark hmark => hending.own mark (List.mem_cons_of_mem _ hmark),
              fun mark hmark => hending.updates mark (List.mem_cons_of_mem _ hmark)⟩
          have hupdate : entry.record.isUpdate = true :=
            hending.updates entry.mark List.mem_cons_self
          have hlinked := ih hrest hthen
          rwa [Log.lookup_chain, if_pos htid.symm, if_pos hupdate] at hlinked

/-- An abort that succeeds writes that the transaction was aborted, and one that fails nothing. -/
theorem Sized.finish_abort (hsized : store.Sized) (tid : TransactionId) :
    ∃ records, store.Journals (marksOf tid records) ((finish tid false).perform store).2 ∧
      (((finish tid false).perform store).1 = .ok () ∧ records = [.abort] ∨
        (∃ error, ((finish tid false).perform store).1 = .error error) ∧ records = []) := by
  have hrestores := hsized.restores (store.pool.dirtiedBy tid)
  simp only [perform_finish, perform_complete, Bool.false_eq_true, if_false]
  revert hrestores
  generalize (List.forM _ Store.restorePage : Action Unit).perform store = restored
  obtain ⟨result, mid⟩ := restored
  intro hrestores
  cases result with
  | error error => exact ⟨[], hrestores, .inr ⟨⟨error, rfl⟩, rfl⟩⟩
  | ok _ =>
      have hreleased := hrestores.sized.withLocks (mid.pool.locks.releaseAll tid)
      exact ⟨[.abort], (hrestores.then_nothing hreleased).trans
        (hreleased.sized.logged (PlainStore.short_outcome tid false)), .inl ⟨rfl, rfl⟩⟩

/-- A failed end is followed by another abort. -/
theorem Updating.finish_abort (hupdates : Updating tid marks) (hwrote : store.Journals marks mid) :
    ∃ marks, store.Journals marks ((finish tid false).perform mid).2 ∧ Ending tid marks := by
  obtain ⟨records, hfinish, ⟨-, rfl⟩ | ⟨-, rfl⟩⟩ := hwrote.sized.finish_abort tid
  · exact ⟨_, hwrote.trans hfinish, hupdates.ending [.abort] (Nat.le_refl 1)⟩
  · exact ⟨_, hwrote.trans hfinish, hupdates.ending [] (Nat.zero_le 1)⟩

/-- A commit writes updates of its transaction, and then that it was committed or aborted. -/
theorem Sized.commitIn (hsized : store.Sized) {order : List PageAddress}
    (horder : order.Perm (store.pool.dirtiedBy tid)) :
    ∃ marks, store.Journals marks ((commitIn order tid).perform store).2 ∧ Ending tid marks := by
  obtain ⟨marks, hflushes, hupdates⟩ :=
    hsized.flushes (mine_dirtiedBy hsized.sound horder) order (List.Subset.refl order)
  rw [perform_commitIn]
  revert hflushes
  rcases (order.forM Store.flushPage).perform store with ⟨result, mid⟩
  intro hflushes
  cases result with
  | ok _ =>
      have hreleased := hflushes.sized.withLocks (mid.pool.locks.releaseAll tid)
      exact ⟨_, (hflushes.then_nothing hreleased).trans
        (hreleased.sized.logged (PlainStore.short_outcome tid true)),
        hupdates.ending [.commit] (Nat.le_refl 1)⟩
  | error error => exact hupdates.finish_abort hflushes

theorem Sized.abort (hsized : store.Sized) (tid : TransactionId) :
    ∃ marks, store.Journals marks ((abort tid).perform store).2 ∧ Ending tid marks := by
  obtain ⟨records, hfinish, hrecords⟩ := hsized.finish_abort tid
  show ∃ marks, store.Journals marks ((endWith tid false).perform store).2 ∧ Ending tid marks
  rw [perform_endWith]
  revert hfinish hrecords
  rcases (finish tid false).perform store with ⟨result, mid⟩
  rintro hfinish (⟨rfl, rfl⟩ | ⟨⟨error, rfl⟩, rfl⟩)
  · exact ⟨_, hfinish, (updating_nil tid).ending [.abort] (Nat.le_refl 1)⟩
  · exact (updating_nil tid).finish_abort hfinish

/-! ## Turns -/

/-- What a turn writes to the log, if it does not begin a transaction: the records of a transaction
that it ends. -/
theorem Sized.turn (hsized : store.Sized) {turn : Turn}
    (htransactional : turn.operation.Transactional) (hfits : turn.Fits store)
    (hbegin : turn.operation.isBegin = false) :
    ∃ marks, store.Journals marks (store.turn turn).2 ∧
      (turn.operation.logs = false ∧ marks = [] ∨
        turn.operation.logs = true ∧ ∃ tid, turn.operation.by? = some tid ∧ Ending tid marks) := by
  -- what an action gives back does not matter for the store after it
  have hmap : ∀ {α : Type} (f : α → Reply) (action : Action α),
      store.Journals [] (action.perform store).2 →
      store.Journals [] ((f <$> action).perform store).2 := by
    intro α f action hwrote
    rw [perform_map]
    exact hwrote
  have hdone : ∀ {marks : List Mark} (action : Action Unit),
      store.Journals marks (action.perform store).2 →
      store.Journals marks ((action *> pure Reply.done).perform store).2 := by
    intro marks action hwrote
    rw [perform_seqRight_pure]
    exact hwrote
  have harmed : ∀ change : Failpoints → Failpoints,
      store.Journals [] { store with armed := change store.armed } := fun change =>
    hsized.silent ⟨hsized.sound.pool, hsized.sound.catalog⟩ hsized.pages rfl rfl rfl rfl
  cases turn with
  | commit tid order =>
      obtain ⟨marks, hwrote, hending⟩ := hsized.commitIn hfits
      exact ⟨marks, hwrote, .inr ⟨rfl, tid, rfl, hending⟩⟩
  | step operation =>
      cases operation with
      | begin => exact absurd hbegin (by simp [Turn.operation, Operation.isBegin])
      | getPage tid address access latched =>
          exact ⟨[], hmap _ _ (hsized.getPage tid address access latched), .inl ⟨rfl, rfl⟩⟩
      | insert tid table row =>
          exact ⟨[], hmap _ _ (hsized.insertRow tid table htransactional), .inl ⟨rfl, rfl⟩⟩
      | delete tid row => exact ⟨[], hdone _ (hsized.deleteRow tid row), .inl ⟨rfl, rfl⟩⟩
      | scan tid table =>
          refine ⟨[], hmap _ _ ?_, .inl ⟨rfl, rfl⟩⟩
          rw [perform_scan]
          split
          · exact hsized.refl
          · exact hsized.scanPages tid _ _ _
      | commit tid =>
          obtain ⟨marks, hwrote, hending⟩ := hsized.commitIn (.refl (store.pool.dirtiedBy tid))
          rw [← perform_commit] at hwrote
          exact ⟨marks, hdone _ hwrote, .inr ⟨rfl, tid, rfl, hending⟩⟩
      | abort tid =>
          obtain ⟨marks, hwrote, hending⟩ := hsized.abort tid
          exact ⟨marks, hdone _ hwrote, .inr ⟨rfl, tid, rfl, hending⟩⟩
      | abandon tid =>
          obtain ⟨marks, hwrote, hending⟩ := (updating_nil tid).finish_abort hsized.refl
          refine ⟨marks, hdone _ ?_, .inr ⟨rfl, tid, rfl, hending⟩⟩
          rw [perform_abandon]
          exact hwrote
      | evict latched => exact ⟨[], hdone _ (hsized.evictPage latched), .inl ⟨rfl, rfl⟩⟩
      | enable site => exact ⟨[], hdone _ (harmed (·.enable site)), .inl ⟨rfl, rfl⟩⟩
      | disable site => exact ⟨[], hdone _ (harmed (·.disable site)), .inl ⟨rfl, rfl⟩⟩
      | disarm => exact ⟨[], hdone _ (harmed Failpoints.clear), .inl ⟨rfl, rfl⟩⟩
      | complete tid committed => exact htransactional.elim
      | release tid address => exact htransactional.elim
      | discard address => exact htransactional.elim
      | flushPage address => exact htransactional.elim
      | flushPagesOf tid => exact htransactional.elim
      | flushAll => exact htransactional.elim
      | openTable path name schema primaryKey pageSize => exact htransactional.elim
      | loadSchema path => exact htransactional.elim
      | clearCatalog => exact htransactional.elim

end Store

end HeapStore
