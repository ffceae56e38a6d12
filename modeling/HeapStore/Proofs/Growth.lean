import HeapStore.Proofs.Invariant
import HeapStore.Proofs.PageArray

/-!
# Growth past the limit of page numbers

Pages have numbers of 32 bits, and the count of the pages of a file is cut to 32 bits, but a file
can have more whole pages than that.  An insertion that finds no free slot appends a page of zeros
with the count as its number.  As long as all pages are counted, the page goes behind the last one.
In a longer file it goes over an old page, whose rows are lost, and the insertion fails because no
page with its number is counted (`Store.growth_overwrites_iff`).
-/

namespace HeapStore

namespace Table

variable {table : Table} {content after : Content}

theorem toNat_pageCount (table : Table) (content : Content) :
    (table.pageCount content).toNat = content.size / table.pageSize % UInt32.size :=
  UInt32.toNat_ofNat'

theorem toNat_pageCount_eq_iff :
    (table.pageCount content).toNat = content.size / table.pageSize ↔ table.Small content := by
  rw [toNat_pageCount, Nat.mod_eq_iff_lt (by decide), Small]

/-- The whole pages of a file stay as they were exactly if the page with the count as its number
goes behind them or over bytes that are equal to its own. -/
theorem Written.keeps_wholePages_iff {data : Bytes} (hpos : 0 < table.pageSize)
    (hwritten : table.Written content (table.pageCount content) data after) :
    table.wholePages content <+: table.wholePages after ↔ table.Small content ∨
      content.slice (table.offset (table.pageCount content)) table.pageSize = data := by
  have hle := pageCount_le table content
  rw [hwritten.wholePages hpos hle]
  by_cases hsmall : table.Small content
  · have hcount := toNat_pageCount_eq_iff.mpr hsmall
    rw [if_neg (by omega)]
    exact iff_of_true (List.prefix_append _ _) (.inl hsmall)
  · have hcount : (table.pageCount content).toNat < content.size / table.pageSize :=
      Nat.lt_of_le_of_ne hle fun heq => hsmall (toNat_pageCount_eq_iff.mp heq)
    have hold : (table.wholePages content)[(table.pageCount content).toNat]? =
        some (content.slice (table.offset (table.pageCount content)) table.pageSize) :=
      getElem?_wholePages hcount
    rw [if_pos hcount, or_iff_right hsmall]
    constructor
    · intro hbegins
      -- both lists are of one length, so the old page is the new one
      have hsame := hbegins.eq_of_length (List.length_set).symm
      rw [hsame, List.getElem?_set_self (by simpa using hcount)] at hold
      exact (Option.some.inj hold).symm
    · rintro rfl
      obtain ⟨hinside, hpage⟩ := List.getElem?_eq_some_iff.mp hold
      have hsame := List.set_getElem_self hinside
      rw [hpage] at hsame
      exact ⟨[], (List.append_nil _).trans hsame.symm⟩

end Table

namespace Store

variable {tid : TransactionId} {id : TableId} {row : Row} {store grown : Store} {table : Table}
  {address : PageAddress}

/-- The search for a free slot changes nothing but the cache. -/
theorem seek_withPool (tid : TransactionId) (table : Table) (count number : Nat) (store : Store) :
    ∃ pool, (seek tid table count number store).2 = store.withPool pool := by
  apply related_seek fun before after => ∃ pool, after = before.withPool pool
  · exact fun before => ⟨before.pool, rfl⟩
  · rintro first mid last ⟨pool, rfl⟩ ⟨later, rfl⟩
    exact ⟨later, rfl⟩
  · exact fun address => getPage_withPool tid address .readWrite []
  · exact fun locks before => ⟨{ before.pool with locks := locks }, rfl⟩

/-- A table grows by a page of zeros with the count of its pages as number, or not at all. -/
theorem growTable_cases (table : Table) (store : Store) :
    (∃ error, (growTable table).perform store = (.error error, store)) ∨
      ∃ after, table.Written (store.tableContent table) (store.pageCount table)
          (Bytes.zeros table.pageSize) after ∧
        (growTable table).perform store = (.ok ⟨table.id, store.pageCount table⟩,
          { store with disk := store.disk.write table.location after }) := by
  rw [perform_growTable]
  cases happend : table.appendPage store.armed (store.disk.content table.location) with
  | error error => exact .inl ⟨error, rfl⟩
  | ok result =>
      obtain ⟨address, after⟩ := result
      obtain ⟨rfl, hwritten⟩ := Table.appended_of_appendPage happend
      exact .inr ⟨after, hwritten, rfl⟩

/-- An insertion into a registered table for which all counted pages are full: a page of zeros is
written with the address, and then the page is to be fetched. -/
structure Appends (tid : TransactionId) (id : TableId) (row : Row) (store : Store) (table : Table)
    (address : PageAddress) (grown : Store) : Prop where
  registered : store.catalog.table id = .ok table
  compatible : row.schema.compatible table.schema = true
  full : ∃ searched, seek tid table (store.pageCount table).toNat 0 store = (.ok none, searched) ∧
    (growTable table).perform searched = (.ok address, grown)

/-- The page is written with the count of the pages as its number. -/
theorem Appends.written (happends : Appends tid id row store table address grown) :
    address = ⟨table.id, store.pageCount table⟩ ∧ ∃ after,
      table.Written (store.tableContent table) (store.pageCount table)
        (Bytes.zeros table.pageSize) after ∧
      grown.catalog = store.catalog ∧ grown.disk = store.disk.write table.location after := by
  obtain ⟨searched, hseek, hgrow⟩ := happends.full
  obtain ⟨pool, hpool⟩ := seek_withPool tid table (store.pageCount table).toNat 0 store
  rw [hseek] at hpool
  obtain rfl : searched = store.withPool pool := hpool
  rcases growTable_cases table (store.withPool pool) with
    ⟨error, hfailed⟩ | ⟨after, hwritten, hgrown⟩
  · rw [hfailed] at hgrow
    exact absurd (Prod.mk.inj hgrow).1 (by simp)
  · rw [hgrown] at hgrow
    obtain ⟨haddress, rfl⟩ := Prod.mk.inj hgrow
    exact ⟨(Except.ok.inj haddress).symm, after, hwritten, rfl, rfl⟩

/-- The appended page is the one that is to have room. -/
theorem Appends.room (happends : Appends tid id row store table address grown) :
    store.room tid table = (getPage tid address .readWrite []).perform grown := by
  obtain ⟨searched, hseek, hgrow⟩ := happends.full
  simp only [Store.room, hseek, hgrow]

/-- Once there is a page with room, an insertion touches no file. -/
theorem disk_insertRow (htable : store.catalog.table id = .ok table)
    (hcompatible : row.schema.compatible table.schema = true) :
    ((insertRow tid id row).perform store).2.disk = (store.room tid table).2.disk := by
  rw [perform_insertRow, htable]
  simp only [hcompatible, if_true]
  rcases store.room tid table with ⟨result, after⟩
  cases result with
  | error error => rfl
  | ok frame =>
      simp only
      split <;> rfl

theorem Appends.disk (happends : Appends tid id row store table address grown) :
    ((insertRow tid id row).perform store).2.disk = grown.disk := by
  obtain ⟨pool, hpool⟩ := getPage_withPool tid address .readWrite [] grown
  rw [disk_insertRow happends.registered happends.compatible, happends.room, hpool]
  rfl

/-- An insertion that appends no page leaves all files alone. -/
theorem disk_or_appends (tid : TransactionId) (id : TableId) (row : Row) (store : Store) :
    ((insertRow tid id row).perform store).2.disk = store.disk ∨
      ∃ table address grown, Appends tid id row store table address grown := by
  cases htable : store.catalog.table id with
  | error error =>
      left
      rw [perform_insertRow, htable]
  | ok table =>
      cases hcompatible : row.schema.compatible table.schema with
      | false =>
          left
          rw [perform_insertRow, htable]
          simp only [hcompatible, Bool.false_eq_true, if_false]
      | true =>
          rw [disk_insertRow htable hcompatible, Store.room]
          obtain ⟨pool, hpool⟩ := seek_withPool tid table (store.pageCount table).toNat 0 store
          rcases hseek : seek tid table (store.pageCount table).toNat 0 store with
            ⟨result, searched⟩
          rw [hseek] at hpool
          obtain rfl : searched = store.withPool pool := hpool
          cases result with
          | error error => exact .inl rfl
          | ok found =>
              cases found with
              | some frame => exact .inl rfl
              | none =>
                  simp only
                  rcases growTable_cases table (store.withPool pool) with
                    ⟨error, hfailed⟩ | ⟨after, -, hgrown⟩
                  · rw [hfailed]
                    exact .inl rfl
                  · exact .inr ⟨table, _, _, htable, hcompatible, _, hseek, hgrown⟩

/-- A page that is not cached is not had unless it can be read. -/
theorem getPage_fails (tid : TransactionId) (access : Access) (latched : List Nat)
    {error : StoreError} (huncached : store.pool.find? address = none)
    (hmissing : store.catalog.read store.disk address = .error error) :
    ∃ cause, ((getPage tid address access latched).perform store).1 = .error cause := by
  rcases hget : (getPage tid address access latched).perform store with ⟨result, after⟩
  cases result with
  | error cause => exact ⟨cause, rfl⟩
  | ok frame =>
      obtain ⟨locks, -, hfetch⟩ := of_getPage hget
      rcases of_fetch hfetch with ⟨hcached, -⟩ | ⟨-, pool, page, -, hread, -⟩
      · exact absurd (huncached.symm.trans hcached) (by simp)
      · exact absurd (hmissing.symm.trans hread) (by simp)

/-- Above the limit the appended page is not counted, so it is found only in the cache. -/
theorem Appends.fails (hcatalog : store.catalog.Sound)
    (happends : Appends tid id row store table address grown)
    (hlarge : ¬ table.Small (store.tableContent table))
    (huncached : grown.pool.find? address = none) :
    ∃ error, ((insertRow tid id row).perform store).1 = .error error := by
  have hlocation := hcatalog.location_of_table happends.registered
  have hid := (Catalog.of_table happends.registered).1
  obtain ⟨rfl, after, hwritten, hsame, hdisk⟩ := happends.written
  -- the page lies inside the file, so the file has as many pages as before
  have hinside : (store.pageCount table).toNat
      < (store.tableContent table).size / table.pageSize :=
    Nat.lt_of_le_of_ne (Table.pageCount_le _ _) fun heq =>
      hlarge (Table.toNat_pageCount_eq_iff.mp heq)
  have hcount : table.pageCount after = store.pageCount table := by
    rw [Table.pageCount, hwritten.size_inside hinside]
    rfl
  have hmissing : grown.catalog.read grown.disk ⟨table.id, store.pageCount table⟩ =
      .error (.pageOutOfRange ⟨table.id, store.pageCount table⟩ (store.pageCount table)) := by
    rw [Catalog.read, hsame, hid, happends.registered, hdisk]
    simp only [Disk.content_write_same store.disk hlocation]
    rw [Table.readPage, if_neg (by simp [hid]), hcount, if_pos (UInt32.le_refl _)]
  obtain ⟨cause, hfailed⟩ := getPage_fails tid .readWrite [] huncached hmissing
  refine ⟨cause, ?_⟩
  rw [perform_insertRow, happends.registered]
  simp only [happends.compatible, if_true, happends.room]
  revert hfailed
  rcases (getPage tid ⟨table.id, store.pageCount table⟩ .readWrite []).perform grown with
    ⟨result, last⟩
  rintro rfl
  rfl

/-- What an insertion that appends a page does to the file of its table, whatever the length of the
file.  The page is written with the number of whole pages modulo 2^32; this is the number of whole
pages exactly as long as all of them are counted, and then they stay as they are.  Above that limit
they do so only if the old page with the number was all zeros, and the insertion fails unless this
page was cached. -/
theorem growth_overwrites_iff {store : Store} (hcatalog : store.catalog.Sound) (tid : TransactionId)
    (id : TableId) (row : Row) :
    let outcome := (insertRow tid id row).perform store
    (outcome.2.disk = store.disk ∨
      ∃ table address grown, Appends tid id row store table address grown) ∧
    ∀ table address grown, Appends tid id row store table address grown →
      let content := store.tableContent table
      let after := outcome.2.tableContent table
      let count := content.size / table.pageSize
      let start := count % UInt32.size * table.pageSize
      address = ⟨id, UInt32.ofNat count⟩ ∧
        (address.number.toNat = count ↔ count < UInt32.size) ∧
        after.toBytes = Bytes.splice start (Bytes.zeros table.pageSize) content.toBytes ∧
        (table.wholePages content <+: table.wholePages after ↔ count < UInt32.size ∨
          content.slice start table.pageSize = Bytes.zeros table.pageSize) ∧
        (UInt32.size ≤ count → grown.pool.find? address = none →
          ∃ error, outcome.1 = .error error) := by
  intro outcome
  refine ⟨disk_or_appends tid id row store, ?_⟩
  intro table address grown happends content after count start
  have hlocation := hcatalog.location_of_table happends.registered
  have hpos : 0 < table.pageSize := by
    rw [hcatalog.pageSize_of_table happends.registered]
    exact hcatalog.pos
  obtain ⟨haddress, written, hwritten, -, hdisk⟩ := happends.written
  have hafter : after = written := by
    show outcome.2.disk.content table.location = written
    rw [happends.disk, hdisk, Disk.content_write_same store.disk hlocation]
  have hstart : table.offset (store.pageCount table) = start := by
    rw [Table.offset, pageCount, Table.toNat_pageCount]
  rw [hafter]
  refine ⟨?_, ?_, ?_, ?_, ?_⟩
  · rw [haddress, (Catalog.of_table happends.registered).1]
    rfl
  · rw [haddress]
    exact Table.toNat_pageCount_eq_iff
  · rw [hwritten.toBytes, hstart]
  · rw [← hstart]
    exact hwritten.keeps_wholePages_iff hpos
  · exact fun hlarge huncached => happends.fails hcatalog (Nat.not_lt.mpr hlarge) huncached

/-- A file of as many pages as there are numbers, and a row on the first one. -/
def numbersUsed : Content :=
  ⟨[.bytes [1, 0, 0, 0, 42], .hole (5 * UInt32.size - 5)]⟩

/-- A database with this file as its table. -/
def outgrown : Store :=
  ((openedAt ⟨[(["a"], .file numbersUsed)], []⟩ "log" { Settings.standard with pageSize := 5 }).step
    (.openTable "a" "a" sampleSchema none 5)).2

/-- Its table. -/
def outgrownTable : Table :=
  ⟨sampleTable, "a", ["a"], sampleSchema, 5⟩

/-- An insertion finds no page and makes the first page one of zeros. -/
theorem appends_outgrown :
    Appends 1 sampleTable (sampleRow 7) outgrown outgrownTable ⟨sampleTable, 0⟩
      ((growTable outgrownTable).perform outgrown).2 := by
  have hcount : outgrown.pageCount outgrownTable = 0 := by decide +kernel
  refine ⟨by decide +kernel, by decide +kernel, outgrown, ?_, ?_⟩
  · rw [hcount]
    rfl
  · exact Prod.ext (by decide +kernel) rfl

theorem opened_outgrown : Opened outgrown :=
  .registered (opened_openedAt (by decide +kernel)) rfl

theorem growth_overwrites_iff_outgrown :
    let outcome := (insertRow 1 sampleTable (sampleRow 7)).perform outgrown
    ¬ outgrownTable.wholePages (outgrown.tableContent outgrownTable) <+:
        outgrownTable.wholePages (outcome.2.tableContent outgrownTable) ∧
      ∃ error, outcome.1 = .error error := by
  have hsound := opened_outgrown.reached.sound
  have hcount : (outgrown.tableContent outgrownTable).size / outgrownTable.pageSize
      = UInt32.size := by
    decide +kernel
  obtain ⟨-, hgrowth⟩ := growth_overwrites_iff hsound.catalog 1 sampleTable (sampleRow 7)
  obtain ⟨-, -, -, hkept, hfails⟩ := hgrowth _ _ _ appends_outgrown
  refine ⟨?_, hfails (Nat.le_of_eq hcount.symm) (by decide +kernel)⟩
  rw [hkept, not_or]
  exact ⟨by rw [hcount]; decide, by decide +kernel⟩

/-- A database with a file of a possible length loses the row on the first page to an insertion that
appends a page under the number of that page. -/
theorem growth_loses_row :
    ∃ store tid id row table address grown, Opened store ∧
      Appends tid id row store table address grown ∧ table.pageSize ≤ maxPageSize ∧
      let content := store.tableContent table
      let after := ((insertRow tid id row).perform store).2.tableContent table
      content.size ≤ Content.maxPosition ∧
        address.number.toNat ≠ content.size / table.pageSize ∧
        content.slice 0 table.pageSize = [1, 0, 0, 0, 42] ∧
        after.slice 0 table.pageSize = [0, 0, 0, 0, 0] :=
  ⟨outgrown, 1, sampleTable, sampleRow 7, outgrownTable, _, _, opened_outgrown, appends_outgrown,
    by decide +kernel, by decide +kernel, by decide +kernel, by decide +kernel, by decide +kernel⟩

end Store

end HeapStore
