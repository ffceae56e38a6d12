import HeapStore.Proofs.Ending
import HeapStore.Proofs.Recovery
import HeapStore.Proofs.Turns

/-!
# What operations write

An operation writes to the log and to the table files one thing after the other: a record, a page
that was logged just before, or a page of zeros behind the last one of a table.  `Writes` is such a
row of writes, with the records that it leaves in the log.  Here are the rows of writes of all
operations over a fixed catalog; what the log says about the files follows from them, one write at
a time.

A turn writes what its operation writes, whatever the order in which it flushes, and leaves coherent
stores behind (`coherent_follow`).

Only an insert makes a table grow.  Only flushes and ends of transactions write to the log: a flush
logs the page that is in the file and the one that was changed, for the transaction that changed it,
and a transaction that ends logs how it ended.
-/

namespace HeapStore

/-- An open log, with the disk on which it and the tables lie. -/
structure Files where
  log : Log
  disk : Disk

/-- A record for the log, with its transaction. -/
abbrev Mark := TransactionId × LogRecord

/-- These records, all with one transaction. -/
def marksOf (tid : TransactionId) (records : List LogRecord) : List Mark :=
  records.map fun record => (tid, record)

theorem marksOf_append (tid : TransactionId) (records later : List LogRecord) :
    marksOf tid (records ++ later) = marksOf tid records ++ marksOf tid later :=
  List.map_append

/-- After a record was written to the log. -/
def Files.marked (files : Files) (mark : Mark) : Files :=
  ⟨(files.log.after files.disk mark.1 mark.2).1, (files.log.after files.disk mark.1 mark.2).2⟩

/-- The length of the record has room in its header. -/
def Mark.Short (mark : Mark) : Prop :=
  logHeaderSize + mark.2.encode.length < UInt32.size

/-- One write: a record, a page after its record, or a page of zeros behind the last one of a table
that may grow. -/
inductive Write (catalog : Catalog) (may : TableId → Prop) : Files → List Mark → Files → Prop
  | marked {files : Files} {mark : Mark} (hshort : mark.Short) :
      Write catalog may files [mark] (files.marked mark)
  | flushed {files : Files} {tid : TransactionId} {page former : Page} {armed : Failpoints}
      {disk : Disk} (hsound : page.Sound)
      (hfiled : catalog.filed? files.disk page.address = some former)
      (hschema : former.schema = page.schema)
      (hshort : Mark.Short (tid, .update page.address former.bytes page.bytes))
      (hwrite : catalog.write armed
        (files.marked (tid, .update page.address former.bytes page.bytes)).disk page = .ok disk) :
      Write catalog may files [(tid, .update page.address former.bytes page.bytes)]
        ⟨(files.marked (tid, .update page.address former.bytes page.bytes)).log, disk⟩
  | grown {files : Files} {id : TableId} {table : Table} {content : Content} (hmay : may id)
      (htable : catalog.table id = .ok table)
      (hsmall : table.Small (files.disk.content table.location))
      (happended : table.Written (files.disk.content table.location)
        (table.pageCount (files.disk.content table.location)) (Bytes.zeros table.pageSize)
        content) :
      Write catalog may files [] ⟨files.log, files.disk.write table.location content⟩

/-- Some writes, with the records that they leave in the log. -/
inductive Writes (catalog : Catalog) (may : TableId → Prop) : Files → List Mark → Files → Prop
  | nothing (files : Files) : Writes catalog may files [] files
  | more {files mid after : Files} {marks later : List Mark}
      (hwrites : Writes catalog may files marks mid) (hwrite : Write catalog may mid later after) :
      Writes catalog may files (marks ++ later) after

section

variable {catalog : Catalog} {may : TableId → Prop} {files mid after : Files}
  {marks later : List Mark}

theorem Write.writes (hwrite : Write catalog may files marks after) :
    Writes catalog may files marks after :=
  .more (.nothing files) hwrite

theorem Writes.trans (hwrites : Writes catalog may files marks mid)
    (hmore : Writes catalog may mid later after) :
    Writes catalog may files (marks ++ later) after := by
  induction hmore with
  | nothing => rwa [List.append_nil]
  | more _ hwrite ih =>
      rw [← List.append_assoc]
      exact .more ih hwrite

/-- The log stays where it is. -/
theorem Writes.location (hwrites : Writes catalog may files marks after) :
    after.log.location = files.log.location := by
  induction hwrites with
  | nothing => rfl
  | more _ hwrite ih =>
      rw [← ih]
      cases hwrite <;> rfl

/-- No table gets shorter by a write, and one that may not grow keeps its length. -/
theorem Write.size (hwrite : Write catalog may files marks after) (hsound : catalog.Sound)
    (hapart : catalog.Apart files.log.location) {id : TableId} {table : Table}
    (htable : catalog.table id = .ok table) :
    (files.disk.content table.location).size ≤ (after.disk.content table.location).size ∧
      (¬ may id →
        (after.disk.content table.location).size = (files.disk.content table.location).size) := by
  have hlog : ∀ mark, (files.marked mark).disk.content table.location
      = files.disk.content table.location :=
    fun mark => Log.content_after _ _ _ _ (hapart.of_table htable)
  have hkeeps : ∀ {before later : Nat}, later = before →
      before ≤ later ∧ (¬ may id → later = before) :=
    fun hsame => ⟨Nat.le_of_eq hsame.symm, fun _ => hsame⟩
  cases hwrite with
  | marked hshort => exact hkeeps (by rw [hlog])
  | @flushed _ page former armed disk hpage hfiled hschema hshort hwrite =>
      obtain ⟨-, -, other, content, hother, hwritten, rfl⟩ := Catalog.of_write hwrite
      apply hkeeps
      by_cases hid : id = page.address.table
      · obtain rfl : table = other := Except.ok.inj (htable.symm.trans (hid ▸ hother))
        have hlocation := hsound.location_of_table htable
        rw [Catalog.filed?_eq_of_table hother] at hfiled
        rw [hlog] at hwritten
        rw [Disk.content_write_same _ hlocation,
          hwritten.size_inside (Table.of_filed? hfiled).1]
      · rw [Disk.content_write_other _ (hsound.location_ne htable hother hid), hlog]
  | @grown other grown content hmay hother hsmall happended =>
      by_cases hid : id = other
      · subst hid
        obtain rfl : table = grown := Except.ok.inj (htable.symm.trans hother)
        have hlocation := hsound.location_of_table htable
        refine ⟨?_, fun hfixed => absurd hmay hfixed⟩
        rw [Disk.content_write_same _ hlocation, happended.size_eq]
        exact Nat.le_max_left _ _
      · exact hkeeps (by rw [Disk.content_write_other _ (hsound.location_ne htable hother hid)])

theorem Writes.size (hwrites : Writes catalog may files marks after) (hsound : catalog.Sound)
    (hapart : catalog.Apart files.log.location) {id : TableId} {table : Table}
    (htable : catalog.table id = .ok table) :
    (files.disk.content table.location).size ≤ (after.disk.content table.location).size ∧
      (¬ may id →
        (after.disk.content table.location).size = (files.disk.content table.location).size) := by
  induction hwrites with
  | nothing => exact ⟨Nat.le_refl _, fun _ => rfl⟩
  | more hwrites hwrite ih =>
      obtain ⟨hle, hsame⟩ := ih
      rw [← hwrites.location] at hapart
      obtain ⟨hnext, hstill⟩ := hwrite.size hsound hapart htable
      exact ⟨Nat.le_trans hle hnext, fun hfixed => (hstill hfixed).trans (hsame hfixed)⟩

end

/-! ## Records of changed pages -/

/-- The record of a page has room in a log frame. -/
theorem short_update (tid : TransactionId) (address : PageAddress) {before after : Bytes}
    (hbefore : before.length ≤ maxPageSize) (hafter : after.length ≤ maxPageSize) :
    Mark.Short (tid, .update address before after) := by
  simp only [Mark.Short, LogRecord.encode, encodeImage, List.length_append, List.length_cons,
    Bytes.length_ofNat, logHeaderSize]
  simp only [maxPageSize] at hbefore hafter
  have hmax : UInt32.size = 4294967296 := rfl
  omega

namespace PlainStore

variable {plain mid after : PlainStore} {tid : TransactionId} {address : PageAddress}
  {may : TableId → Prop} {marks later : List Mark}

/-- The log of the store, with its disk. -/
def files (plain : PlainStore) : Files :=
  ⟨plain.log, plain.disk⟩

/-- The one store came from the other by these writes, over the same catalog and without a new
transaction. -/
structure Wrote (plain : PlainStore) (may : TableId → Prop) (marks : List Mark)
    (after : PlainStore) : Prop where
  catalog : after.catalog = plain.catalog
  next : after.nextTransaction = plain.nextTransaction
  writes : Writes plain.catalog may plain.files marks after.files

/-- The files of the store can be written: it is sound, its tables are small, and a page of theirs
has room in a log frame. -/
structure Writable (plain : PlainStore) : Prop where
  sound : plain.Sound
  small : plain.catalog.Small plain.disk
  size : plain.catalog.pageSize ≤ maxPageSize

theorem Wrote.refl (plain : PlainStore) (may : TableId → Prop) : plain.Wrote may [] plain :=
  ⟨rfl, rfl, .nothing _⟩

theorem Wrote.trans (hfirst : plain.Wrote may marks mid) (hsecond : mid.Wrote may later after) :
    plain.Wrote may (marks ++ later) after := by
  refine ⟨hsecond.catalog.trans hfirst.catalog, hsecond.next.trans hfirst.next,
    hfirst.writes.trans ?_⟩
  rw [← hfirst.catalog]
  exact hsecond.writes

theorem Wrote.then_nothing (hfirst : plain.Wrote may marks mid)
    (hsecond : mid.Wrote may [] after) : plain.Wrote may marks after := by
  have hboth := hfirst.trans hsecond
  rwa [List.append_nil] at hboth

/-- Locks and changed pages are in no file. -/
theorem wrote_of_files (hcatalog : after.catalog = plain.catalog)
    (hnext : after.nextTransaction = plain.nextTransaction) (hlog : after.log = plain.log)
    (hdisk : after.disk = plain.disk) : plain.Wrote may [] after := by
  refine ⟨hcatalog, hnext, ?_⟩
  have hfiles : after.files = plain.files := by
    simp only [files, hlog, hdisk]
  rw [hfiles]
  exact .nothing _

theorem wrote_logged {record : LogRecord} (hshort : Mark.Short (tid, record)) :
    plain.Wrote may [(tid, record)] (plain.logged tid record) :=
  ⟨rfl, rfl, (Write.marked hshort).writes⟩

/-! ## Rows -/

theorem wrote_getPage (tid : TransactionId) (address : PageAddress) (access : Access) :
    plain.Wrote may [] (plain.getPage tid address access).2 := by
  obtain ⟨locks, hafter⟩ := getPage_withLocks tid address access plain
  rw [hafter]
  exact wrote_of_files rfl rfl rfl rfl

theorem wrote_grow {id : TableId} {table : Table} (hmay : may id)
    (htable : plain.catalog.table id = .ok table) (hsmall : plain.catalog.Small plain.disk) :
    plain.Wrote may [] (plain.grow table).2 := by
  unfold grow
  cases happend : table.appendPage plain.armed (plain.disk.content table.location) with
  | error error => exact .refl plain may
  | ok result =>
      obtain ⟨address, content⟩ := result
      obtain ⟨-, happended⟩ := Table.appended_of_appendPage happend
      exact ⟨rfl, rfl, (Write.grown hmay htable (hsmall.of_table htable) happended).writes⟩

theorem wrote_room {id : TableId} {table : Table} (hmay : may id)
    (htable : plain.catalog.table id = .ok table) (hsmall : plain.catalog.Small plain.disk)
    (tid : TransactionId) : plain.Wrote may [] (plain.room tid table).2 := by
  simp only [room]
  generalize (table.pageCount (plain.disk.content table.location)).toNat = count
  obtain ⟨locks, hafter⟩ := seek_withLocks tid table count 0 plain
  revert hafter
  rcases seek tid table count 0 plain with ⟨result, after⟩
  rintro rfl
  have hsought : plain.Wrote may [] (plain.withLocks locks) := wrote_of_files rfl rfl rfl rfl
  cases result with
  | error error => exact hsought
  | ok found =>
      cases found with
      | some page => exact hsought
      | none =>
          have hgrown : (plain.withLocks locks).Wrote may []
              ((plain.withLocks locks).grow table).2 := wrote_grow hmay htable hsmall
          revert hgrown
          simp only
          rcases (plain.withLocks locks).grow table with ⟨result, grown⟩
          intro hgrown
          cases result with
          | error error => exact hsought.then_nothing hgrown
          | ok address =>
              exact (hsought.then_nothing hgrown).then_nothing
                (wrote_getPage tid address .readWrite)

/-- An insert writes no record, and makes no table grow but its own. -/
theorem wrote_insertRow (hsmall : plain.catalog.Small plain.disk) (tid : TransactionId)
    (id : TableId) (row : Row) : plain.Wrote (id = ·) [] (plain.insertRow tid id row).2 := by
  unfold insertRow
  cases htable : plain.catalog.table id with
  | error error => exact .refl plain _
  | ok table =>
      simp only
      split
      · have hmay : (· = id) id := rfl
        have hroom := wrote_room hmay htable hsmall tid
        revert hroom
        rcases plain.room tid table with ⟨result, after⟩
        intro hroom
        cases result with
        | error error => exact hroom
        | ok page =>
            simp only
            split
            · exact hroom
            · exact hroom.then_nothing (wrote_of_files rfl rfl rfl rfl)
      · exact .refl plain _

theorem wrote_deleteRow (tid : TransactionId) (row : Row) :
    plain.Wrote may [] (plain.deleteRow tid row).2 := by
  unfold deleteRow
  cases row.address with
  | none => exact .refl plain may
  | some place =>
      simp only
      cases plain.catalog.table place.page.table with
      | error error => exact .refl plain may
      | ok table =>
          simp only
          split
          · exact .refl plain may
          · have hpage : plain.Wrote may [] (plain.getPage tid place.page .readWrite).2 :=
              wrote_getPage tid place.page .readWrite
            revert hpage
            rcases plain.getPage tid place.page .readWrite with ⟨result, after⟩
            intro hpage
            cases result with
            | error error => exact hpage
            | ok page =>
                simp only
                split
                · exact hpage
                · exact hpage.then_nothing (wrote_of_files rfl rfl rfl rfl)

theorem wrote_scanPages (tid : TransactionId) (table : Table) (count number : Nat) :
    plain.Wrote may [] (scanPages tid table count number plain).2 := by
  induction count generalizing plain number with
  | zero => exact .refl plain may
  | succ count ih =>
      unfold scanPages
      have hpage : plain.Wrote may []
          (plain.getPage tid ⟨table.id, UInt32.ofNat number⟩ .readOnly).2 :=
        wrote_getPage tid _ .readOnly
      revert hpage
      rcases plain.getPage tid ⟨table.id, UInt32.ofNat number⟩ .readOnly with ⟨result, after⟩
      intro hpage
      cases result with
      | error error => exact hpage
      | ok page => exact hpage.then_nothing (ih (number + 1))

/-! ## Flushing and restoring -/

/-- The flush of a changed page writes its record, and then the page or nothing; that of any other
page writes nothing. -/
theorem wrote_flushPage (may : TableId → Prop) (hwritable : plain.Writable)
    (address : PageAddress) :
    (plain.changed? address = none ∧ plain.flushPage address = (.ok (), plain)) ∨
    ∃ owner former page, plain.owner? address = some owner ∧
      plain.Wrote may [(owner, .update address former page)] (plain.flushPage address).2 := by
  cases hchanged : plain.changed? address with
  | none => exact Or.inl ⟨rfl, by simp only [flushPage, hchanged]⟩
  | some page =>
      obtain ⟨owner, former, howner, hfiled, hflush⟩ :=
        flushPage_of_changed hwritable.sound hchanged
      obtain ⟨hmem, rfl⟩ := hwritable.sound.changed?_eq_some_iff.mp hchanged
      have hpage := hwritable.sound.changed page hmem
      obtain ⟨other, hother, hschema, hsize, -⟩ := hpage.filed
      obtain rfl : former = other := Option.some.inj (hfiled.symm.trans hother)
      -- both pages have the size of the catalog
      have hlength : former.size ≤ maxPageSize := by
        rw [Catalog.size_of_filed? hwritable.sound.catalog hfiled]
        exact hwritable.size
      have hshort : Mark.Short (owner, .update page.address former.bytes page.bytes) := by
        apply short_update
        · rwa [Page.length_bytes (Catalog.of_filed? hfiled).sound]
        · rwa [Page.length_bytes hpage.sound, ← hsize]
      refine Or.inr ⟨owner, former.bytes, page.bytes, by simp [owner?, hchanged, howner], ?_⟩
      simp only at hflush
      rw [hflush]
      cases hwrite : plain.catalog.write plain.armed
          (plain.logged owner (.update page.address former.bytes page.bytes)).disk page with
      | error error => exact wrote_logged hshort
      | ok disk =>
          have hflushed : Write plain.catalog may plain.files
              [(owner, .update page.address former.bytes page.bytes)]
              ⟨(plain.logged owner (.update page.address former.bytes page.bytes)).log, disk⟩ :=
            .flushed hpage.sound hfiled hschema hshort hwrite
          exact ⟨rfl, rfl, hflushed.writes⟩

theorem exists_wrote_flushPage (may : TableId → Prop) (hwritable : plain.Writable)
    (address : PageAddress) : ∃ marks, plain.Wrote may marks (plain.flushPage address).2 := by
  rcases wrote_flushPage may hwritable address with ⟨-, hflush⟩ | ⟨owner, former, page, -, hwrote⟩
  · rw [hflush]
    exact ⟨[], .refl plain may⟩
  · exact ⟨_, hwrote⟩

theorem wrote_restorePage (address : PageAddress) :
    plain.Wrote may [] (plain.restorePage address).2 := by
  unfold restorePage
  split
  · exact .refl plain may
  · split
    · exact .refl plain may
    · exact wrote_of_files rfl rfl rfl rfl

theorem Writable.moved (hwritable : plain.Writable) {standing : Standing}
    (hmoved : plain.Moved standing after) (hwrote : plain.Wrote may marks after) :
    after.Writable := by
  refine ⟨hmoved.sound, hmoved.small, ?_⟩
  rw [hwrote.catalog]
  exact hwritable.size

/-- The records are one update for each of these pages. -/
def Updates : List PageAddress → List LogRecord → Prop :=
  List.Forall₂ fun address record => ∃ before after, record = .update address before after

/-- Flushes of the pages of a transaction write one update for each page, up to the one that
fails. -/
theorem wrote_each_flushPage (may : TableId → Prop) {order : List PageAddress}
    (hwritable : plain.Writable) (hnodup : order.Nodup)
    (howned : ∀ address ∈ order, plain.owner? address = some tid) :
    ∃ done updates, done <+: order ∧ Updates done updates ∧
      plain.Wrote may (marksOf tid updates) (each flushPage order plain).2 ∧
      ((each flushPage order plain).1 = .ok () → done = order) ∧
      (∀ error, (each flushPage order plain).1 = .error error → done ≠ []) := by
  induction order generalizing plain with
  | nil =>
      exact ⟨[], [], List.prefix_rfl, .nil, .refl plain may, fun _ => rfl,
        fun error herror => absurd herror (by simp [each])⟩
  | cons address rest ih =>
      obtain ⟨hnew, hrest⟩ := List.nodup_cons.mp hnodup
      have hmine := howned address List.mem_cons_self
      rcases wrote_flushPage may hwritable address with
        ⟨hchanged, -⟩ | ⟨owner, former, page, howner, hwrote⟩
      · simp [owner?, hchanged] at hmine
      · obtain rfl : owner = tid := Option.some.inj (howner.symm.trans hmine)
        have hflushed := flushed_or_stopped hwritable.sound hwritable.small address
        unfold each
        revert hwrote hflushed
        rcases plain.flushPage address with ⟨result, mid⟩
        rintro hwrote (⟨rfl, hmoved⟩ | ⟨⟨error, rfl⟩, hmoved⟩)
        -- the other pages are still those of the transaction
        · have hstill : ∀ other ∈ rest, mid.owner? other = some owner := by
            intro other hother
            have hne : other ≠ address := fun heq => hnew (heq ▸ hother)
            have howners := congrFun (congrArg (·.owner) hmoved.standing) other
            simp only [Standing.settled, hne, decide_false, Bool.false_eq_true, if_false] at howners
            exact howners.trans (howned other (List.mem_cons_of_mem address hother))
          obtain ⟨done, later, hdone, hupdates, hlater, hok, herror⟩ :=
            ih (hwritable.moved hmoved hwrote) hrest hstill
          refine ⟨address :: done, .update address former page :: later,
            List.cons_prefix_cons.mpr ⟨rfl, hdone⟩, .cons ⟨former, page, rfl⟩ hupdates,
            hwrote.trans hlater, ?_, by simp⟩
          exact fun hall => by rw [hok hall]
        · exact ⟨[address], [.update address former page],
            List.cons_prefix_cons.mpr ⟨rfl, List.nil_prefix⟩, .cons ⟨former, page, rfl⟩ .nil,
            hwrote, by simp, by simp⟩

/-- Flushes of any pages write some updates. -/
theorem wrote_flushes (may : TableId → Prop) (addresses : List PageAddress)
    (hwritable : plain.Writable) :
    (∃ marks, plain.Wrote may marks (each flushPage addresses plain).2) ∧
      (each flushPage addresses plain).2.Writable := by
  induction addresses generalizing plain with
  | nil => exact ⟨⟨[], .refl plain may⟩, hwritable⟩
  | cons address rest ih =>
      have hwrote := exists_wrote_flushPage may hwritable address
      have hflushed := flushed_or_stopped hwritable.sound hwritable.small address
      unfold each
      revert hwrote hflushed
      rcases plain.flushPage address with ⟨result, mid⟩
      rintro ⟨marks, hwrote⟩ (⟨rfl, hmoved⟩ | ⟨⟨error, rfl⟩, hmoved⟩)
      · have hmid := hwritable.moved hmoved hwrote
        obtain ⟨⟨later, hlater⟩, hlast⟩ := ih hmid
        exact ⟨⟨marks ++ later, hwrote.trans hlater⟩, hlast⟩
      · exact ⟨⟨marks, hwrote⟩, hwritable.moved hmoved hwrote⟩

theorem wrote_restores (addresses : List PageAddress) :
    plain.Wrote may [] (each restorePage addresses plain).2 := by
  induction addresses generalizing plain with
  | nil => exact .refl plain may
  | cons address rest ih =>
      have hwrote : plain.Wrote may [] (plain.restorePage address).2 := wrote_restorePage address
      unfold each
      revert hwrote
      rcases plain.restorePage address with ⟨result, mid⟩
      intro hwrote
      cases result with
      | error error => exact hwrote
      | ok _ => exact hwrote.then_nothing ih

/-! ## Ends of transactions -/

theorem short_outcome (tid : TransactionId) (commit : Bool) :
    Mark.Short (tid, Store.outcome commit) := by
  simp only [Mark.Short, Store.outcome]
  cases commit with
  | true => decide
  | false => decide

theorem wrote_released (hwrote : plain.Wrote may marks mid) (commit : Bool) :
    plain.Wrote may (marks ++ [(tid, Store.outcome commit)])
      ((mid.withLocks (mid.locks.releaseAll tid)).logged tid (Store.outcome commit)) := by
  have hreleased : mid.Wrote may [] (mid.withLocks (mid.locks.releaseAll tid)) :=
    wrote_of_files rfl rfl rfl rfl
  exact (hwrote.then_nothing hreleased).trans (wrote_logged (short_outcome tid commit))

/-- An abort writes that the transaction was aborted, and nothing else. -/
theorem wrote_finish_abort (hwritable : plain.Writable) (tid : TransactionId) :
    plain.Wrote may [(tid, .abort)] (plain.finish tid false).2 := by
  obtain ⟨hok, -⟩ :=
    moved_each_restorePage (plain.dirtiedBy tid) hwritable.sound hwritable.small
  have hwrote : plain.Wrote may [] (each restorePage (plain.dirtiedBy tid) plain).2 :=
    wrote_restores (plain.dirtiedBy tid)
  simp only [finish, complete, Bool.false_eq_true, if_false]
  revert hok hwrote
  rcases each restorePage (plain.dirtiedBy tid) plain with ⟨result, mid⟩
  rintro rfl hwrote
  exact wrote_released hwrote false

theorem wrote_endIn_abort (may : TableId → Prop) (hwritable : plain.Writable)
    (tid : TransactionId) (order : List PageAddress) :
    plain.Wrote may [(tid, .abort)] (plain.endIn tid order false).2 := by
  obtain ⟨hok, -⟩ := moved_each_restorePage order hwritable.sound hwritable.small
  have hwrote : plain.Wrote may [] (each restorePage order plain).2 := wrote_restores order
  simp only [endIn, Bool.false_eq_true, if_false]
  revert hok hwrote
  rcases each restorePage order plain with ⟨result, mid⟩
  rintro rfl hwrote
  exact wrote_released hwrote false

theorem nodup_dirtiedBy (hsound : plain.Sound) (tid : TransactionId) :
    (plain.dirtiedBy tid).Nodup := by
  have hfiltered : (plain.changed.filter (·.owner = some tid)).Sublist plain.changed :=
    List.filter_sublist
  exact (perm_inOrder PageAddress.precedes _).nodup_iff.mpr
    (hsound.addresses.sublist (hfiltered.map _))

theorem mem_dirtiedBy_iff (hsound : plain.Sound) :
    address ∈ plain.dirtiedBy tid ↔ plain.owner? address = some tid := by
  have hon := congrFun (mem_dirtiedBy hsound tid) address
  simp only [Standing.owns, decide_eq_decide] at hon
  exact hon

/-- A commit writes one update for each page of its transaction, and then that it was committed.
One that fails writes at least one update, and then that the transaction was aborted. -/
theorem wrote_endIn_commit (may : TableId → Prop) (hwritable : plain.Writable)
    {order : List PageAddress} (horder : order.Perm (plain.dirtiedBy tid)) :
    (plain.endIn tid order true).1 = .ok () ∧
      (∃ updates, Updates order updates ∧
        plain.Wrote may (marksOf tid (updates ++ [.commit])) (plain.endIn tid order true).2) ∨
    (∃ error, (plain.endIn tid order true).1 = .error error) ∧
      (∃ done updates, done <+: order ∧ done ≠ [] ∧ Updates done updates ∧
        plain.Wrote may (marksOf tid (updates ++ [.abort])) (plain.endIn tid order true).2) := by
  have hnodup := horder.nodup_iff.mpr (nodup_dirtiedBy hwritable.sound tid)
  have howned : ∀ address ∈ order, plain.owner? address = some tid := fun address hmem =>
    (mem_dirtiedBy_iff hwritable.sound).mp (horder.mem_iff.mp hmem)
  obtain ⟨done, updates, hdone, hupdates, hwrote, hok, herror⟩ :=
    wrote_each_flushPage may hwritable hnodup howned
  have hwritten := (wrote_flushes may order hwritable).2
  simp only [endIn, if_true]
  revert hwrote hok herror hwritten
  rcases each flushPage order plain with ⟨result, mid⟩
  intro hwrote hok herror hmid
  cases result with
  | ok _ =>
      obtain rfl := hok rfl
      refine Or.inl ⟨rfl, updates, hupdates, ?_⟩
      rw [marksOf_append]
      exact wrote_released hwrote true
  | error error =>
      refine Or.inr ⟨⟨error, rfl⟩, done, updates, hdone, herror error rfl, hupdates, ?_⟩
      rw [marksOf_append]
      exact hwrote.trans (wrote_finish_abort hmid tid)

end PlainStore

/-! ## Steps -/

/-- The operation may write to the log: it flushes pages or ends a transaction. -/
def Operation.logs : Operation → Bool
  | .commit _ => true
  | .abort _ => true
  | .abandon _ => true
  | .complete _ _ => true
  | .flushPage _ => true
  | .flushPagesOf _ => true
  | .flushAll => true
  | _ => false

/-- The operation begins a transaction. -/
def Operation.isBegin : Operation → Bool
  | .begin => true
  | _ => false

/-- The operation may make the table grow: it inserts a row there. -/
def Operation.grows : Operation → TableId → Prop
  | .insert _ table _ => (table = ·)
  | _ => fun _ => False

namespace PlainStore

variable {plain : PlainStore} {operation : Operation}

theorem wrote_step_of_silent (hsmall : plain.catalog.Small plain.disk)
    (hsilent : operation.logs = false) (hbegin : operation.isBegin = false) :
    plain.Wrote operation.grows [] (plain.step operation).2 := by
  cases operation with
  | begin => exact absurd hbegin (by simp [Operation.isBegin])
  | getPage tid address access latched => exact wrote_getPage tid address access
  | insert tid id row => exact wrote_insertRow hsmall tid id row
  | delete tid row => exact wrote_deleteRow tid row
  | scan tid id =>
      simp only [step]
      cases plain.catalog.table id with
      | error error => exact .refl plain _
      | ok table => exact wrote_scanPages tid table _ 0
  | commit tid => exact absurd hsilent (by simp [Operation.logs])
  | abort tid => exact absurd hsilent (by simp [Operation.logs])
  | abandon tid => exact absurd hsilent (by simp [Operation.logs])
  | complete tid commit => exact absurd hsilent (by simp [Operation.logs])
  | flushPage address => exact absurd hsilent (by simp [Operation.logs])
  | flushPagesOf tid => exact absurd hsilent (by simp [Operation.logs])
  | flushAll => exact absurd hsilent (by simp [Operation.logs])
  | _ => exact wrote_of_files rfl rfl rfl rfl

/-- Every operation on tables and transactions writes some records, and makes at most the table grow
in which it inserts. -/
theorem wrote_step (hwritable : plain.Writable) {operation : Operation}
    (hbegin : operation.isBegin = false) :
    ∃ marks, plain.Wrote operation.grows marks (plain.step operation).2 := by
  cases operation with
  | begin => exact absurd hbegin (by simp [Operation.isBegin])
  | commit tid =>
      have hends := wrote_endIn_commit (Operation.commit tid).grows hwritable
        (.refl (plain.dirtiedBy tid))
      rw [← endWith_eq_endIn] at hends
      rcases hends with ⟨-, marks, -, hwrote⟩ | ⟨-, done, marks, -, -, -, hwrote⟩
      · exact ⟨_, hwrote⟩
      · exact ⟨_, hwrote⟩
  | abort tid =>
      have hwrote := wrote_endIn_abort (Operation.abort tid).grows hwritable tid
        (plain.dirtiedBy tid)
      rw [← endWith_eq_endIn] at hwrote
      exact ⟨_, hwrote⟩
  | abandon tid => exact ⟨_, wrote_finish_abort hwritable tid⟩
  | complete tid commit =>
      have hwalk : ∃ marks, plain.Wrote (Operation.complete tid commit).grows marks
          (each (if commit then flushPage else restorePage) (plain.dirtiedBy tid) plain).2 := by
        cases commit with
        | true => exact (wrote_flushes _ _ hwritable).1
        | false => exact ⟨[], wrote_restores _⟩
      simp only [step, complete]
      revert hwalk
      rcases each (if commit then flushPage else restorePage) (plain.dirtiedBy tid) plain
        with ⟨result, after⟩
      rintro ⟨marks, hwrote⟩
      cases result with
      | error error => exact ⟨marks, hwrote⟩
      | ok _ => exact ⟨marks, hwrote.then_nothing (wrote_of_files rfl rfl rfl rfl)⟩
  | flushPage address => exact exists_wrote_flushPage _ hwritable address
  | flushPagesOf tid => exact (wrote_flushes _ _ hwritable).1
  | flushAll => exact (wrote_flushes _ _ hwritable).1
  | _ => exact ⟨[], wrote_step_of_silent hwritable.small rfl rfl⟩

end PlainStore

/-! ## What turns write -/

namespace Store

variable {store : Store} {changed : List Page}

/-- A turn writes some records, and makes at most the table grow in which it inserts. -/
theorem wrote_turn (hcoherent : Coherent store changed) (hwritable : (store.plain changed).Writable)
    {turn : Turn} (hfits : turn.Fits store) (hbegin : turn.operation.isBegin = false) :
    ∃ marks, (store.plain changed).Wrote turn.operation.grows marks
      ((store.plain changed).turn turn).2 := by
  cases turn with
  | step operation => exact PlainStore.wrote_step hwritable hbegin
  | commit tid order =>
      have horder : order.Perm ((store.plain changed).dirtiedBy tid) := by
        rw [hcoherent.dirtiedBy_eq]
        exact hfits
      rcases PlainStore.wrote_endIn_commit (Operation.commit tid).grows hwritable horder with
        ⟨-, updates, -, hwrote⟩ | ⟨-, done, updates, -, -, -, hwrote⟩
      · exact ⟨_, hwrote⟩
      · exact ⟨_, hwrote⟩

/-- A turn leaves the catalog alone, and no table gets shorter by it. -/
theorem lengths_turn (hcoherent : Coherent store changed)
    (hwritable : (store.plain changed).Writable) {turn : Turn} (hfits : turn.Fits store) :
    ((store.plain changed).turn turn).2.catalog = store.catalog ∧
      ∀ id table, store.catalog.table id = .ok table →
        (store.tableContent table).size
          ≤ (((store.plain changed).turn turn).2.disk.content table.location).size := by
  cases hbegin : turn.operation.isBegin with
  | false =>
      obtain ⟨marks, hwrote⟩ := wrote_turn hcoherent hwritable hfits hbegin
      refine ⟨hwrote.catalog, fun id table htable => ?_⟩
      exact (hwrote.writes.size hcoherent.sound.catalog hcoherent.sound.apart htable).1
  | true =>
      cases turn with
      | commit tid order => exact absurd hbegin (by simp [Turn.operation, Operation.isBegin])
      | step operation =>
          cases operation with
          | begin => exact ⟨rfl, fun id table htable => Nat.le_refl _⟩
          | _ => exact absurd hbegin (by simp [Turn.operation, Operation.isBegin])

/-- A turn leaves coherent stores behind. -/
theorem coherent_turn (hcoherent : Coherent store changed)
    (hsmall : store.catalog.Small store.disk) (hsize : store.catalog.pageSize ≤ maxPageSize)
    {turn : Turn} (hfits : turn.Fits store) (hfixed : turn.operation.Fixed) :
    ∃ still, Coherent (store.turn turn).2 still ∧ (store.turn turn).2.catalog = store.catalog ∧
      ∀ id table, store.catalog.table id = .ok table →
        (store.tableContent table).size ≤ ((store.turn turn).2.tableContent table).size := by
  obtain ⟨-, still, hafter, hplain⟩ := turn_agree hcoherent hsmall hfixed
  have hlengths := lengths_turn hcoherent
    (⟨hcoherent.sound, hsmall, hsize⟩ : (store.plain changed).Writable) hfits
  rw [hplain] at hlengths
  exact ⟨still, hafter, hlengths⟩

/-- A run of turns leaves coherent stores behind. -/
theorem coherent_follow (turns : List Turn) (hcoherent : Coherent store changed)
    (hsize : store.catalog.pageSize ≤ maxPageSize) (hadmits : store.Admits turns)
    (hfixed : ∀ turn ∈ turns, turn.operation.Fixed) :
    ∃ still, Coherent (store.follow turns) still ∧
      (store.follow turns).catalog = store.catalog := by
  induction turns generalizing store changed with
  | nil => exact ⟨changed, hcoherent, rfl⟩
  | cons turn turns ih =>
      obtain ⟨hsmall, hfits, hrest⟩ := hadmits
      obtain ⟨still, hafter, hcatalog, -⟩ :=
        coherent_turn hcoherent hsmall hsize hfits (hfixed turn List.mem_cons_self)
      obtain ⟨later, hlast, hsame⟩ := ih hafter (by rwa [hcatalog]) hrest
        fun other hother => hfixed other (List.mem_cons_of_mem turn hother)
      exact ⟨later, hlast, hsame.trans hcatalog⟩

end Store

end HeapStore
