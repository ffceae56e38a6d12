import HeapStore.Proofs.Eviction
import HeapStore.Proofs.Opening
import HeapStore.Proofs.Writing

/-!
# The log is ahead of the tables

Whatever is in a table file was logged before: from empty files on, every page there is zeros, as it
was appended, or it has the bytes that some update in the log left (`Store.Ahead`).  A flush that
overwrites a page has logged the bytes that the file held until then and those that it writes, for
the transaction that changed the page (`write_ahead`).

The former bytes that a flush logs are not read from the file, but kept in the cached page.  That
they are those in the file comes from coherence; that the page in the file is written with the bytes
it was read from is part of the invariant, `Files.Imaged`, as a page that is read may forget bytes.
-/

namespace HeapStore

/-- The bytes are zeros, or an update of the page among these records left them. -/
def Pictured (entries : List LogEntry) (address : PageAddress) (data : Bytes) : Prop :=
  (∀ byte ∈ data, byte = 0) ∨
    ∃ entry ∈ entries, ∃ before, entry.record = .update address before data

theorem Pictured.append {entries : List LogEntry} {address : PageAddress} {data : Bytes}
    (hpictured : Pictured entries address data) (added : List LogEntry) :
    Pictured (entries ++ added) address data := by
  rcases hpictured with hzero | ⟨entry, hentry, hrecord⟩
  · exact Or.inl hzero
  · exact Or.inr ⟨entry, List.mem_append_left added hentry, hrecord⟩

/-- The log holds these records, and every page in a table file is accounted for by them and is
written as it was read. -/
structure Files.Imaged (catalog : Catalog) (files : Files) (entries : List LogEntry) : Prop where
  held : files.log.Holds (files.disk.content files.log.location) entries
  pictured : ∀ (id : TableId) (table : Table) (number : UInt32), catalog.table id = .ok table →
    number.toNat < (files.disk.content table.location).size / table.pageSize →
    Pictured entries ⟨id, number⟩
      ((files.disk.content table.location).slice (table.offset number) table.pageSize)
  exact : ∀ address former, catalog.filed? files.disk address = some former →
    former.bytes = former.before

namespace Files.Imaged

variable {catalog : Catalog} {files : Files} {entries : List LogEntry}

/-- A record comes to those that the log holds. -/
theorem marked (himaged : files.Imaged catalog entries) (hlocation : files.log.location ≠ [])
    (hapart : catalog.Apart files.log.location) {mark : Mark} (hshort : mark.Short) :
    (files.marked mark).Imaged catalog (entries ++
      [⟨files.log.next, mark.1, files.log.last.lookup mark.1, mark.2⟩]) := by
  obtain ⟨longer, content, hwrite, hsame, hholds⟩ :=
    himaged.held.write hlocation mark.1 hshort
  have hmarked : files.marked mark = ⟨longer, files.disk.write files.log.location content⟩ := by
    simp only [Files.marked, Log.after, hwrite]
  have htables : ∀ id table, catalog.table id = .ok table →
      (files.marked mark).disk.content table.location = files.disk.content table.location :=
    fun id table htable => Log.content_after _ _ _ _ (hapart.of_table htable)
  refine ⟨?_, ?_, ?_⟩
  · rw [hmarked]
    simp only [hsame]
    exact hholds
  · intro id table number htable hnumber
    rw [htables id table htable] at hnumber ⊢
    exact (himaged.pictured id table number htable hnumber).append _
  · intro address former hfiled
    apply himaged.exact address former
    rw [← hfiled]
    symm
    exact congrFun (Catalog.filed?_congr fun entry hentry =>
      Log.content_after _ _ _ _ (hapart entry hentry)) address

/-- A page goes over the one in its place, after a record of it. -/
theorem flushed (himaged : files.Imaged catalog entries) (hsound : catalog.Sound)
    (hapart : catalog.Apart files.log.location) {page former : Page} {armed : Failpoints}
    {disk : Disk} (hpage : page.Sound)
    (hfiled : catalog.filed? files.disk page.address = some former)
    (hschema : former.schema = page.schema)
    (hrecord : ∃ entry ∈ entries, ∃ before, entry.record = .update page.address before page.bytes)
    (hwrite : catalog.write armed files.disk page = .ok disk) :
    Files.Imaged catalog ⟨files.log, disk⟩ entries := by
  have hpages := Catalog.filed?_of_write hsound hpage hfiled hschema hwrite
  obtain ⟨-, -, table, content, htable, hwritten, rfl⟩ := Catalog.of_write hwrite
  rw [Catalog.filed?_eq_of_table htable] at hfiled
  have hinside := (Table.of_filed? hfiled).1
  refine ⟨?_, ?_, ?_⟩
  · show files.log.Holds ((files.disk.write table.location content).content _) entries
    rw [Disk.content_write_other _ (Ne.symm (hapart.of_table htable))]
    exact himaged.held
  · intro id other number hother hnumber
    simp only at hnumber ⊢
    by_cases hid : id = page.address.table
    · subst hid
      obtain rfl : other = table := Except.ok.inj (hother.symm.trans htable)
      rw [Disk.content_write_same _ (hsound.location_of_table htable)] at hnumber ⊢
      rw [hwritten.size_inside hinside] at hnumber
      by_cases hplace : number = page.address.number
      · subst hplace
        rw [hwritten.slice_same]
        exact Or.inr hrecord
      · rw [hwritten.slice_other hplace]
        exact himaged.pictured _ other number hother hnumber
    · have hne := hsound.location_ne hother htable hid
      rw [Disk.content_write_other _ hne] at hnumber ⊢
      exact himaged.pictured id other number hother hnumber
  · intro address other hother
    simp only [hpages] at hother
    split at hother
    · obtain rfl := Option.some.inj hother
      exact Page.bytes_normal _
    · exact himaged.exact address other hother

/-- A page of zeros comes behind the last one of a table. -/
theorem grown (himaged : files.Imaged catalog entries) (hsound : catalog.Sound)
    (hapart : catalog.Apart files.log.location) {id : TableId} {table : Table} {content : Content}
    (htable : catalog.table id = .ok table)
    (hsmall : table.Small (files.disk.content table.location))
    (happended : table.Written (files.disk.content table.location)
      (table.pageCount (files.disk.content table.location)) (Bytes.zeros table.pageSize)
      content) :
    Files.Imaged catalog ⟨files.log, files.disk.write table.location content⟩ entries := by
  have hpos : 0 < table.pageSize := by
    rw [hsound.pageSize_of_table htable]
    exact hsound.pos
  have hlocation := hsound.location_of_table htable
  have hcount := Table.pageCount_of_small hsmall
  refine ⟨?_, ?_, ?_⟩
  · show files.log.Holds ((files.disk.write table.location content).content _) entries
    rw [Disk.content_write_other _ (Ne.symm (hapart.of_table htable))]
    exact himaged.held
  · intro other table' number hother hnumber
    simp only at hnumber ⊢
    by_cases hid : other = id
    · subst hid
      obtain rfl : table' = table := Except.ok.inj (hother.symm.trans htable)
      rw [Disk.content_write_same _ hlocation] at hnumber ⊢
      rw [happended.count_appended hpos hsmall] at hnumber
      by_cases hplace : number = table'.pageCount (files.disk.content table'.location)
      · rw [hplace, happended.slice_same]
        exact Or.inl fun byte hbyte => List.eq_of_mem_replicate hbyte
      · rw [happended.slice_other hplace]
        apply himaged.pictured other table' number hother
        have hnumbers := mt UInt32.toNat_inj.mp hplace
        omega
    · rw [Disk.content_write_other _ (hsound.location_ne hother htable hid)] at hnumber ⊢
      exact himaged.pictured other table' number hother hnumber
  · intro address former hfiled
    simp only [Catalog.filed?_write hsound htable] at hfiled
    split at hfiled
    · rename_i hid
      by_cases hplace : address.number = table.pageCount (files.disk.content table.location)
      -- the new page is read from zeros
      · have hzeros := happended.slice_same
        rw [hplace] at hfiled
        have hinside := (Table.of_filed? hfiled).1
        have hread := (Table.of_filed? hfiled).2.1
        simp only [Table.filed?, if_pos hinside, hzeros] at hfiled
        rw [Page.bytes_of_zeros (ok_of_toOption hfiled), hread.before, hzeros]
      · rw [happended.filed?_appended hpos hsmall hplace] at hfiled
        apply himaged.exact address former
        rw [Catalog.filed?_eq_of_table (hid ▸ htable)]
        exact hfiled
    · exact himaged.exact address former hfiled

end Files.Imaged

section

variable {catalog : Catalog} {may : TableId → Prop} {files after : Files} {marks : List Mark}
  {entries : List LogEntry}

theorem Write.imaged (hwrite : Write catalog may files marks after) (hsound : catalog.Sound)
    (hlocation : files.log.location ≠ []) (hapart : catalog.Apart files.log.location)
    (himaged : files.Imaged catalog entries) :
    ∃ added, after.Imaged catalog (entries ++ added) := by
  cases hwrite with
  | marked hshort => exact ⟨_, himaged.marked hlocation hapart hshort⟩
  | @flushed tid page former armed disk hpage hfiled hschema hshort hwrite =>
      have hmarked := himaged.marked hlocation hapart hshort
      have hsame : catalog.filed? (files.marked (tid,
          .update page.address former.bytes page.bytes)).disk page.address = some former := by
        rw [← hfiled]
        exact congrFun (Catalog.filed?_congr fun entry hentry =>
          Log.content_after _ _ _ _ (hapart entry hentry)) page.address
      refine ⟨_, hmarked.flushed hsound hapart hpage hsame hschema ?_ hwrite⟩
      exact ⟨_, List.mem_append_right _ (List.mem_singleton_self _), former.bytes, rfl⟩
  | grown hmay htable hsmall happended =>
      exact ⟨[], by
        rw [List.append_nil]
        exact himaged.grown hsound hapart htable hsmall happended⟩

theorem Writes.imaged (hwrites : Writes catalog may files marks after) (hsound : catalog.Sound)
    (hlocation : files.log.location ≠ []) (hapart : catalog.Apart files.log.location)
    (himaged : files.Imaged catalog entries) :
    ∃ added, after.Imaged catalog (entries ++ added) := by
  induction hwrites with
  | nothing => exact ⟨[], by rwa [List.append_nil]⟩
  | more hwrites hwrite ih =>
      obtain ⟨added, hmid⟩ := ih
      rw [← hwrites.location] at hlocation hapart
      obtain ⟨more, hafter⟩ := hwrite.imaged hsound hlocation hapart hmid
      exact ⟨added ++ more, by rwa [← List.append_assoc]⟩

end

namespace Store

open HeapStore.Action

variable {store after : Store} {changed later : List Page} {address : PageAddress}

/-- The log of the store, with its disk. -/
def files (store : Store) : Files :=
  ⟨store.log, store.disk⟩

/-- The log consists of records, and each page in a table file is zeros, as it was appended, or
what an update of it among these records left. -/
def Ahead (store : Store) : Prop :=
  ∃ entries, store.log.Holds store.logContent entries ∧
    (store.logContent.size < UInt64.size → store.records = .ok entries) ∧
    ∀ (id : TableId) (table : Table) (number : UInt32), store.catalog.table id = .ok table →
      number.toNat < (store.tableContent table).size / table.pageSize →
      Pictured entries ⟨id, number⟩ (store.placeOf table number)

theorem ahead_of_imaged {entries : List LogEntry}
    (himaged : store.files.Imaged store.catalog entries) : store.Ahead :=
  ⟨entries, himaged.held,
    fun hsize => himaged.held.records_eq (himaged.held.fits_of_size hsize), himaged.pictured⟩

/-! ## Runs -/

/-- Cache and files agree, and the log has told what is in the files. -/
structure Backed (store : Store) (changed : List Page) : Prop where
  coherent : Coherent store changed
  small : store.catalog.Small store.disk
  size : store.catalog.pageSize ≤ maxPageSize
  location : store.log.location ≠ []
  imaged : ∃ entries, store.files.Imaged store.catalog entries

namespace Backed

theorem ahead (hbacked : Backed store changed) : store.Ahead := by
  obtain ⟨entries, himaged⟩ := hbacked.imaged
  exact ahead_of_imaged himaged

theorem writable (hbacked : Backed store changed) : (store.plain changed).Writable :=
  ⟨hbacked.coherent.sound, hbacked.small, hbacked.size⟩

/-- Writes keep the files accounted for. -/
theorem wrote (hbacked : Backed store changed) {may : TableId → Prop} {marks : List Mark}
    (hwrote : (store.plain changed).Wrote may marks (after.plain later))
    (hcoherent : Coherent after later) (hsmall : after.catalog.Small after.disk) :
    Backed after later := by
  obtain ⟨entries, himaged⟩ := hbacked.imaged
  have hcatalog : after.catalog = store.catalog := hwrote.catalog
  have hlocation : after.log.location = store.log.location := hwrote.writes.location
  obtain ⟨added, hafter⟩ := hwrote.writes.imaged hbacked.coherent.sound.catalog hbacked.location
    hbacked.coherent.sound.apart himaged
  refine ⟨hcoherent, hsmall, ?_, ?_, entries ++ added, ?_⟩
  · rw [hcatalog]
    exact hbacked.size
  · rw [hlocation]
    exact hbacked.location
  · rw [hcatalog]
    exact hafter

theorem turn (hbacked : Backed store changed) {turn : Turn} (hfits : turn.Fits store)
    (hfixed : turn.operation.Fixed)
    (hsmall : (store.turn turn).2.catalog.Small (store.turn turn).2.disk) :
    ∃ later, Backed (store.turn turn).2 later := by
  obtain ⟨-, later, hcoherent, hplain⟩ := turn_agree hbacked.coherent hbacked.small hfixed
  cases hbegin : turn.operation.isBegin with
  | false =>
      obtain ⟨marks, hwrote⟩ := wrote_turn hbacked.coherent hbacked.writable hfits hbegin
      rw [hplain] at hwrote
      exact ⟨later, hbacked.wrote hwrote hcoherent hsmall⟩
  | true =>
      cases turn with
      | commit tid order => exact absurd hbegin (by simp [Turn.operation, Operation.isBegin])
      | step operation =>
          cases operation with
          | begin =>
              exact ⟨later, hcoherent, hsmall, hbacked.size, hbacked.location, hbacked.imaged⟩
          | _ => exact absurd hbegin (by simp [Turn.operation, Operation.isBegin])

theorem follow (turns : List Turn) (hbacked : Backed store changed)
    (hfixed : ∀ turn ∈ turns, turn.operation.Fixed) (hadmits : store.Admits turns) :
    ∃ later, Backed (store.follow turns) later := by
  induction turns generalizing store changed with
  | nil => exact ⟨changed, hbacked⟩
  | cons turn turns ih =>
      obtain ⟨-, hfits, hrest⟩ := hadmits
      obtain ⟨mid, hmid⟩ := hbacked.turn hfits (hfixed turn List.mem_cons_self) hrest.head
      exact ih hmid (fun later hlater => hfixed later (List.mem_cons_of_mem turn hlater)) hrest

end Backed

/-- Log and tables are empty files. -/
structure Blank (store : Store) : Prop where
  log : store.logContent.size = 0
  tables : ∀ entry ∈ store.catalog.entries, (store.tableContent entry.table).size = 0

/-- Empty files have no page. -/
theorem Opened.backed (hopened : Opened store) (hapart : store.catalog.Apart store.log.location)
    (hblank : store.Blank) : Backed store [] := by
  have hbegun := hopened.begun
  have hnothing : store.logContent.toBytes = [] := by
    apply List.length_eq_zero_iff.mp
    rw [← Content.size_eq_length, hblank.log]
  have hextends := hbegun.log.extends
  rw [hnothing] at hextends
  have hempty : ∀ id table, store.catalog.table id = .ok table →
      (store.tableContent table).size / table.pageSize = 0 := by
    intro id table htable
    obtain ⟨-, entry, hentry, rfl⟩ := Catalog.of_table htable
    rw [hblank.tables entry hentry, Nat.zero_div]
  refine ⟨hopened.fresh.coherent hapart, ?_, hbegun.size, hbegun.location, [], ?_, ?_, ?_⟩
  · intro entry hentry
    have hsize := hblank.tables entry hentry
    rw [tableContent] at hsize
    rw [Table.Small, hsize, Nat.zero_div]
    decide
  · exact hextends.holds
  · intro id table number htable hnumber
    have hcount := hempty id table htable
    rw [tableContent] at hcount
    rw [files, hcount] at hnumber
    exact absurd hnumber (Nat.not_lt_zero _)
  · intro address former hfiled
    obtain ⟨table, htable, hpage⟩ := Catalog.table_of_filed? hfiled
    have hcount := hempty _ table htable
    rw [tableContent] at hcount
    have hnumber := (Table.of_filed? hpage).1
    rw [files, hcount] at hnumber
    exact absurd hnumber (Nat.not_lt_zero _)

/-! ## Flushes -/

/-- The record that a flush logs for a page: the bytes that the file holds in its place, and those
that the page is written with. -/
def images (store : Store) (table : Table) (page : Page) : LogRecord :=
  .update page.address (store.placeOf table page.address.number) page.bytes

/-- What a flush of a page does.  It does nothing if the page is not changed.  Otherwise it logs
what the file holds and what it writes, for the transaction that changed the page; then it stops at
an error, or the page goes over the one in the file. -/
inductive Flush (store : Store) (address : PageAddress) : Except StoreError Unit × Store → Prop
  | clean (hclean : ¬ store.Dirty address) : Flush store address (.ok (), store)
  | stopped {frame : Frame} {owner : TransactionId} {table : Table} {error : StoreError}
      (hfind : store.pool.find? address = some frame) (howner : frame.page.owner = some owner)
      (htable : store.catalog.table address.table = .ok table)
      (hahead : (store.logged owner (store.images table frame.page)).Ahead) :
      Flush store address (.error error, store.logged owner (store.images table frame.page))
  | written {frame : Frame} {owner : TransactionId} {table : Table} {content : Content}
      (hfind : store.pool.find? address = some frame) (howner : frame.page.owner = some owner)
      (htable : store.catalog.table address.table = .ok table)
      (hahead : (store.logged owner (store.images table frame.page)).Ahead)
      (hinside : address.number.toNat < (store.tableContent table).size / table.pageSize)
      (hwritten : table.Written (store.tableContent table) address.number frame.page.bytes
        content) :
      Flush store address (.ok (), { store.logged owner (store.images table frame.page) with
        disk := (store.logged owner (store.images table frame.page)).disk.write table.location
          content
        pool := store.pool.replace frame.stamp frame.page.settled })

/-- Flushes one after the other, up to one that stops; the log is ahead of the tables before and
after each of them. -/
inductive InTurn : Store → List PageAddress → Except StoreError Unit × Store → Prop
  | nothing {store : Store} (hahead : store.Ahead) : InTurn store [] (.ok (), store)
  | next {store mid : Store} {address : PageAddress} {rest : List PageAddress}
      {outcome : Except StoreError Unit × Store} (hahead : store.Ahead)
      (hflush : Flush store address (.ok (), mid)) (hrest : InTurn mid rest outcome) :
      InTurn store (address :: rest) outcome
  | stopped {store after : Store} {address : PageAddress} {rest : List PageAddress}
      {error : StoreError} (hahead : store.Ahead)
      (hflush : Flush store address (.error error, after)) (hafter : after.Ahead) :
      InTurn store (address :: rest) (.error error, after)

/-- A cached page has its former bytes from its place in the file. -/
theorem Backed.images_of_mem (hbacked : Backed store changed) {frame : Frame}
    (hframe : frame ∈ store.pool.resident) :
    ∃ table former, store.catalog.table frame.page.address.table = .ok table ∧
      frame.page.address.number.toNat < (store.tableContent table).size / table.pageSize ∧
      frame.page.beforeImage = .ok former ∧
      LogRecord.update frame.page.address former.bytes frame.page.bytes
        = store.images table frame.page ∧
      ∀ owner, Mark.Short (owner, store.images table frame.page) := by
  obtain ⟨former, hfiled, hschema, hsize, hbefore⟩ := hbacked.coherent.filed_of_mem hframe
  obtain ⟨entries, himaged⟩ := hbacked.imaged
  have hcatalog := hbacked.coherent.sound.catalog
  have hexact := himaged.exact frame.page.address former hfiled
  have himage := Catalog.beforeImage_of_filed? hfiled hschema hbefore
  -- both images have the size of a page
  have hformer : former.bytes.length ≤ maxPageSize := by
    rw [Page.length_bytes (Catalog.of_filed? hfiled).sound,
      Catalog.size_of_filed? hcatalog hfiled]
    exact hbacked.size
  have hpage : frame.page.bytes.length ≤ maxPageSize := by
    rw [Page.length_bytes (Page.sound_of_normal (hbacked.coherent.sound_normal hframe)), ← hsize,
      Catalog.size_of_filed? hcatalog hfiled]
    exact hbacked.size
  obtain ⟨table, htable, hfile⟩ := Catalog.table_of_filed? hfiled
  obtain ⟨hinside, hread, -⟩ := Table.of_filed? hfile
  have hrecord : LogRecord.update frame.page.address former.bytes frame.page.bytes
      = store.images table frame.page := by
    rw [hexact, hread.before]
    rfl
  refine ⟨table, former, htable, hinside, himage, hrecord, fun owner => ?_⟩
  rw [← hrecord]
  exact short_update owner frame.page.address hformer hpage

/-- After a record of its own the log is still ahead of the tables. -/
theorem Backed.ahead_logged (hbacked : Backed store changed) {owner : TransactionId}
    {record : LogRecord} (hshort : Mark.Short (owner, record)) :
    (store.logged owner record).Ahead := by
  obtain ⟨entries, himaged⟩ := hbacked.imaged
  have hmarked := himaged.marked hbacked.location hbacked.coherent.sound.apart hshort
  exact ahead_of_imaged hmarked

theorem Backed.flush (hbacked : Backed store changed) (address : PageAddress) :
    Flush store address ((flushPage address).perform store) := by
  rw [perform_flushPage]
  cases hfind : store.pool.find? address with
  | none =>
      refine .clean ?_
      rintro ⟨frame, owner, hsome, -⟩
      rw [hfind] at hsome
      exact absurd hsome (by simp)
  | some frame =>
      cases howner : frame.page.owner with
      | none =>
          simp only [howner]
          refine .clean ?_
          rintro ⟨other, owner, hsome, hdirty⟩
          obtain rfl := Option.some.inj (hfind.symm.trans hsome)
          rw [howner] at hdirty
          exact absurd hdirty (by simp)
      | some owner =>
          obtain ⟨hframe, rfl⟩ := hbacked.coherent.pool.find?_eq_some_iff.mp hfind
          obtain ⟨table, former, htable, hinside, himage, hrecord, hshort⟩ :=
            hbacked.images_of_mem hframe
          have hahead := hbacked.ahead_logged (hshort owner)
          simp only [howner, perform_flushFrame, himage, hrecord]
          cases hwrite : (store.logged owner (store.images table frame.page)).catalog.write
              (store.logged owner (store.images table frame.page)).armed
              (store.logged owner (store.images table frame.page)).disk frame.page with
          | error error => exact .stopped hfind howner htable hahead
          | ok disk =>
              obtain ⟨-, -, other, content, hother, hwritten, rfl⟩ := Catalog.of_write hwrite
              obtain rfl : table = other := Except.ok.inj (htable.symm.trans hother)
              -- the record went to another file
              have hsame := (onlyLogged_logged store owner (store.images table frame.page)).files
                table.location (hbacked.coherent.sound.apart.of_table htable)
              rw [hsame] at hwritten
              exact .written hfind howner htable hahead hinside hwritten

theorem Backed.flushed (hbacked : Backed store changed) (address : PageAddress) :
    ∃ later, Backed ((flushPage address).perform store).2 later := by
  obtain ⟨marks, hwrote⟩ :=
    PlainStore.exists_wrote_flushPage (fun _ => False) hbacked.writable address
  have hagree := flushPage_agree hbacked.coherent address
  have hsmall := small_flushPage hbacked.coherent hbacked.small address
  revert hagree hwrote hsmall
  generalize (flushPage address).perform store = real
  generalize (store.plain changed).flushPage address = outcome
  intro hwrote hagree hsmall
  cases hagree with
  | error hafter => exact ⟨_, hbacked.wrote hwrote hafter hsmall⟩
  | ok hafter _ => exact ⟨_, hbacked.wrote hwrote hafter hsmall⟩

theorem Backed.inTurn (addresses : List PageAddress) (hbacked : Backed store changed) :
    InTurn store addresses ((addresses.forM flushPage).perform store) := by
  induction addresses generalizing store changed with
  | nil => exact .nothing hbacked.ahead
  | cons address rest ih =>
      rw [perform_forM_cons]
      have hflush := hbacked.flush address
      obtain ⟨later, hafter⟩ := hbacked.flushed address
      revert hflush hafter
      rcases (flushPage address).perform store with ⟨result, after⟩
      intro hflush hafter
      cases result with
      | error error => exact .stopped hbacked.ahead hflush hafter.ahead
      | ok _ => exact .next hbacked.ahead hflush (ih hafter)

/-- From empty files on, every page in a table file is zeros or what an update in the log left, and
a flush logs what it is about to overwrite and to write.  The pages that a transaction changed can
be flushed in any order, also in the commits of the run. -/
theorem write_ahead (hopened : Opened store) (hapart : store.catalog.Apart store.log.location)
    (hblank : store.Blank) (turns : List Turn)
    (hfixed : ∀ turn ∈ turns, turn.operation.Fixed) (hadmits : store.Admits turns) :
    (store.follow turns).Ahead ∧ ∀ addresses,
      InTurn (store.follow turns) addresses
        ((addresses.forM flushPage).perform (store.follow turns)) := by
  obtain ⟨later, hbacked⟩ := (hopened.backed hapart hblank).follow turns hfixed hadmits
  exact ⟨hbacked.ahead, fun addresses => hbacked.inTurn addresses⟩

/-- A flush stops behind its record, the page is restored and read again, changed by another
transaction with a second page, and both are flushed, the second one first. -/
theorem write_ahead_sample :
    let turns := [.step .begin, .step (.insert 1 sampleTable (sampleRow 7)),
      .step (.enable flushAfterForce), .step (.flushPage ⟨sampleTable, 0⟩), .step (.abort 1),
      .step .disarm, .step (.evict []), .step .begin,
      .step (.insert 2 sampleTable (sampleRow 8)), .step (.insert 2 sampleTable (sampleRow 9)),
      .step (.insert 2 sampleTable (sampleRow 10)), .step (.insert 2 sampleTable (sampleRow 11)),
      .commit 2 [⟨sampleTable, 1⟩, ⟨sampleTable, 0⟩], .step .begin,
      .step (.delete 3 (sampleRowAt 8 0 0))]
    (sample.follow turns).Ahead ∧ ∀ addresses,
      InTurn (sample.follow turns) addresses
        ((addresses.forM flushPage).perform (sample.follow turns)) :=
  write_ahead opened_sample (by decide +kernel) ⟨by decide +kernel, by decide +kernel⟩ _
    (by simp [Turn.operation, Operation.Fixed, valid_sampleRow]) (by decide +kernel)

end Store

end HeapStore
