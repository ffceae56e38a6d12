import HeapStore.Proofs.Abort
import HeapStore.Proofs.Opening
import HeapStore.Proofs.Search
import HeapStore.Proofs.Steady

/-!
# Rows go where there is room first

A row that is inserted goes into the first free slot of its table that its transaction sees, and
only if there is none the table grows by one page, whose first slot it gets.  No other slot of any
table changes, the page is changed by the transaction, and of all pages that were searched at most
this one is locked anew (`insert_first_fit`).
-/

namespace HeapStore

/-! ## Free slots -/

namespace Page

theorem fields?_ne_none {page : Page} {slot : Nat} (hslot : slot < page.slots.length)
    (hused : ¬ page.slots[slot].isNone = true) : page.fields? slot ≠ none := by
  have hcontent : page.slots[slot]? = some page.slots[slot] := List.getElem?_eq_getElem hslot
  cases hrow : page.slots[slot] with
  | none => simp [hrow] at hused
  | some row => simp [fields?, row?, hcontent, hrow]

/-- A row goes into the lowest free slot. -/
theorem lowest_of_insert {page fuller : Page} {row stored : Row} {place : RecordAddress}
    (hinsert : page.insert row = .ok (stored, fuller)) (hplace : stored.address = some place) :
    ∀ slot < place.slot, page.fields? slot ≠ none := by
  obtain ⟨-, free, hfind, rfl, -⟩ := found_of_insert hinsert
  obtain rfl := Option.some.inj hplace
  obtain ⟨hfree, -, hlower⟩ := List.findIdx?_eq_some_iff_getElem.mp hfind
  exact fun slot hslot => fields?_ne_none (Nat.lt_trans hslot hfree) (hlower slot hslot)

/-- On a page without a free slot there is a row in every slot. -/
theorem fields?_of_full {page : Page} (hfull : page.freeSlots = 0) {slot : Nat}
    (hslot : slot < page.slots.length) : page.fields? slot ≠ none :=
  fields?_ne_none hslot (List.countP_eq_zero.mp hfull page.slots[slot] (List.getElem_mem hslot))

end Page

/-- Where the page behind the last one can be read after it was written, the file is still below
the limit of 32 bits. -/
theorem Table.Written.small_of_readPage {table : Table} {content after : Content} {data : Bytes}
    {page : Page} (hpos : 0 < table.pageSize) (hsmall : table.Small content)
    (hwritten : table.Written content (table.pageCount content) data after)
    (hread : table.readPage after ⟨table.id, table.pageCount content⟩ = .ok page) :
    table.Small after := by
  have hcount := hwritten.count_appended hpos hsmall
  have hbefore := Table.pageCount_of_small hsmall
  simp only [Table.readPage, ne_eq, not_true_eq_false, if_false] at hread
  split at hread
  · exact absurd hread (by simp)
  · rename_i hnumber
    rw [UInt32.le_iff_toNat_le, hbefore, Table.pageCount, UInt32.toNat_ofNat', hcount] at hnumber
    unfold Table.Small at hsmall ⊢
    rw [hcount]
    -- one page more than can be counted would be counted as none
    by_contra hlarge
    have hlimit : content.size / table.pageSize + 1 = 2 ^ 32 := by
      have hsize : UInt32.size = 2 ^ 32 := rfl
      omega
    rw [hlimit, Nat.mod_self] at hnumber
    exact hnumber (Nat.zero_le _)

/-- A slot of a page in the file of the table has no row. -/
def Table.Free (table : Table) (rows : Rows) (disk : Disk) (place : RecordAddress) : Prop :=
  place.page.table = table.id ∧
    place.page.number < table.pageCount (disk.content table.location) ∧
    place.slot < Geometry.slotCount table.pageSize table.schema.rowSize ∧ rows place = none

/-- Where a row goes that is put into the table, and the disk after that: into the first free slot,
or into the first slot of a page of zeros by which the file grows if no slot is free. -/
inductive Table.FirstFit (table : Table) (rows : Rows) (disk : Disk) (place : RecordAddress) :
    Disk → Prop
  | fits (hfree : table.Free rows disk place)
      (hfirst : ∀ other, table.Free rows disk other → other = place ∨ place.compare other = .lt) :
      FirstFit table rows disk place disk
  | grows {content : Content} (hfull : ∀ other, ¬ table.Free rows disk other)
      (hplace : place = ⟨⟨table.id, table.pageCount (disk.content table.location)⟩, 0⟩)
      (hwritten : table.Written (disk.content table.location)
        (table.pageCount (disk.content table.location)) (Bytes.zeros table.pageSize) content)
      (hcount : (table.pageCount content).toNat
        = (table.pageCount (disk.content table.location)).toNat + 1) :
      FirstFit table rows disk place (disk.write table.location content)

namespace PlainStore

variable {plain after : PlainStore} {initial : Rows} {ledger : Ledger} {tid : TransactionId}
  {id : TableId} {table : Table} {address : PageAddress} {page : Page} {row stored : Row}

/-- The pages of a table have as many slots as fit. -/
theorem slots_of_page (hsound : plain.Sound)
    (htable : plain.catalog.table address.table = .ok table)
    (hpage : plain.page address = .ok page) :
    page.slots.length = Geometry.slotCount table.pageSize table.schema.rowSize := by
  have hfiled : ∃ former, plain.catalog.filed? plain.disk address = some former ∧
      former.schema = page.schema ∧ former.size = page.size := by
    cases hchanged : plain.changed? address with
    | some found =>
        rw [page_of_changed hchanged] at hpage
        obtain rfl := Except.ok.inj hpage
        obtain ⟨hmem, rfl⟩ := hsound.changed?_eq_some_iff.mp hchanged
        obtain ⟨former, hfiled, hschema, hsize, -⟩ := (hsound.changed found hmem).filed
        exact ⟨former, hfiled, hschema, hsize⟩
    | none =>
        simp only [PlainStore.page, hchanged] at hpage
        split at hpage
        · exact absurd hpage (by simp)
        · exact ⟨page, Catalog.filed?_of_read hpage, rfl, rfl⟩
  obtain ⟨former, hfiled, hschema, hsize⟩ := hfiled
  rw [Catalog.filed?_eq_of_table htable] at hfiled
  obtain ⟨-, hread, hlength⟩ := Table.of_filed? hfiled
  rw [(sound_of_page hsound hpage).count, ← hsize, ← hschema, hlength, hread.schema]

/-- Where a transaction may lock a page exclusively, it sees what is there. -/
theorem view_of_alone (haccounts : Accounts initial ledger plain.standing)
    (hguarded : plain.Guarded) {place : RecordAddress}
    (halone : ∀ who, plain.locks.mode? place.page who = some .exclusive → who = tid) :
    plain.standing.view tid place = plain.present place :=
  haccounts.view_eq_present fun other howned => halone other (hguarded.owned _ other howned)

/-- A full page has no free slot. -/
theorem not_free_of_full (haccounts : Accounts initial ledger plain.standing)
    (hguarded : plain.Guarded) (hsound : plain.Sound)
    (htable : plain.catalog.table table.id = .ok table) {place : RecordAddress}
    (hfull : plain.Full tid place.page) :
    ¬ table.Free (plain.standing.view tid) plain.disk place := by
  rintro ⟨hid, -, hslot, hnone⟩
  obtain ⟨⟨page, hpage, hslots⟩, halone⟩ := hfull
  rw [view_of_alone haccounts hguarded halone, ← (of_page hpage).2 place.slot] at hnone
  rw [← slots_of_page hsound (by rwa [hid]) hpage] at hslot
  exact Page.fields?_of_full hslots hslot hnone

/-- On the first pages, if these are full, no slot is free. -/
theorem not_free_of_lt (haccounts : Accounts initial ledger plain.standing)
    (hguarded : plain.Guarded) (hsound : plain.Sound)
    (htable : plain.catalog.table table.id = .ok table) {count : Nat}
    (hfull : ∀ earlier < count, plain.Full tid ⟨table.id, .ofNat earlier⟩) {place : RecordAddress}
    (hlt : place.page.number.toNat < count) :
    ¬ table.Free (plain.standing.view tid) plain.disk place := by
  intro hfree
  have hpage := hfull place.page.number.toNat hlt
  rw [UInt32.ofNat_toNat, ← hfree.1] at hpage
  exact not_free_of_full haccounts hguarded hsound htable hpage hfree

/-- If the first pages are full and the first slots of the next one have rows, no slot before these
places is free. -/
theorem eq_or_before_of_free (haccounts : Accounts initial ledger plain.standing)
    (hguarded : plain.Guarded) (hsound : plain.Sound)
    (htable : plain.catalog.table table.id = .ok table) {offset slot : Nat}
    (hoffset : offset < UInt32.size)
    (hfull : ∀ earlier < offset, plain.Full tid ⟨table.id, .ofNat earlier⟩)
    (htaken : ∀ lower < slot,
      plain.standing.view tid ⟨⟨table.id, .ofNat offset⟩, lower⟩ ≠ none)
    {other : RecordAddress} (hfree : table.Free (plain.standing.view tid) plain.disk other) :
    other = ⟨⟨table.id, .ofNat offset⟩, slot⟩ ∨
      RecordAddress.compare ⟨⟨table.id, .ofNat offset⟩, slot⟩ other = .lt := by
  obtain ⟨⟨id, number⟩, next⟩ := other
  obtain rfl : id = table.id := hfree.1
  simp only [RecordAddress.compare_eq_lt_iff]
  rcases Nat.lt_trichotomy number.toNat offset with hbefore | hsame | hbehind
  · exact absurd hfree (not_free_of_lt haccounts hguarded hsound htable hfull hbefore)
  · obtain rfl : number = .ofNat offset := by rw [← hsame, UInt32.ofNat_toNat]
    rcases Nat.lt_trichotomy next slot with hlower | rfl | hhigher
    · exact absurd hfree.2.2.2 (htaken next hlower)
    · exact Or.inl rfl
    · exact Or.inr (Or.inr ⟨rfl, hhigher⟩)
  · right
    left
    rw [UInt32.lt_iff_toNat_lt, UInt32.toNat_ofNat_of_lt' hoffset]
    exact hbehind

/-- A page that is added and can be read has no rows, and the tables are still small. -/
theorem of_page_grown (hsound : plain.Sound) (hsmall : plain.catalog.Small plain.disk)
    (htable : plain.catalog.table table.id = .ok table) {count : UInt32} {content : Content}
    (hcount : count = table.pageCount (plain.disk.content table.location))
    (hwritten : table.Written (plain.disk.content table.location) count
      (Bytes.zeros table.pageSize) content)
    (hpage : (plain.withContent table content).page ⟨table.id, count⟩ = .ok page) :
    (∀ slot, page.fields? slot = none) ∧ (table.pageCount content).toNat = count.toNat + 1 ∧
      plain.catalog.Small (plain.disk.write table.location content) := by
  subst hcount
  have hfile := hsmall.of_table htable
  have hpos : 0 < table.pageSize := by
    rw [hsound.catalog.pageSize_of_table htable]
    exact hsound.catalog.pos
  have hlocation := hsound.catalog.location_of_table htable
  -- the page has not been there, so it was not changed
  have hmissing : plain.catalog.filed? plain.disk
      ⟨table.id, table.pageCount (plain.disk.content table.location)⟩ = none := by
    rw [Catalog.filed?_eq_of_table htable]
    exact Table.filed?_pageCount hfile
  have hunchanged := changed?_of_missing hsound hmissing
  have hchanged : (plain.withContent table content).changed?
      ⟨table.id, table.pageCount (plain.disk.content table.location)⟩ = none := hunchanged
  have hread : table.readPage content
      ⟨table.id, table.pageCount (plain.disk.content table.location)⟩ = .ok page := by
    simp only [PlainStore.page, hchanged] at hpage
    split at hpage
    · exact absurd hpage (by simp)
    · simp only [withContent, Catalog.read, htable, Disk.content_write_same _ hlocation] at hpage
      exact hpage
  have hcontent := hwritten.small_of_readPage hpos hfile hread
  refine ⟨?_, ?_, ?_⟩
  · intro slot
    have hrows : (plain.withContent table content).catalog.rows
        (plain.withContent table content).disk = plain.catalog.rows plain.disk :=
      Catalog.rows_of_appended hsound.catalog hsmall htable hwritten
    rw [(of_page hpage).2 slot, present_of_unchanged hchanged, hrows]
    simp only [Catalog.rows, hmissing, Option.bind_none]
  · rw [Table.pageCount_of_small hcontent, Table.pageCount_of_small hfile,
      hwritten.count_appended hpos hfile]
  · intro entry hentry
    unfold Table.Small
    by_cases hsame : entry.table.location = table.location
    · rw [hsame, Disk.content_write_same _ hlocation, hsound.catalog.size entry hentry,
        ← hsound.catalog.pageSize_of_table htable]
      exact hcontent
    · rw [Disk.content_write_other _ hsame]
      exact hsmall entry hentry

/-- Where a row goes for which room was found, and what the search has locked. -/
theorem firstFit_of_roomed (haccounts : Accounts initial ledger plain.standing)
    (hguarded : plain.Guarded) (hsound : plain.Sound) (hsmall : plain.catalog.Small plain.disk)
    (htable : plain.catalog.table table.id = .ok table)
    (hroomed : Roomed plain tid table (.ok page, after)) {fuller : Page} {place : RecordAddress}
    (hinsert : page.insert row = .ok (stored, fuller)) (hplace : stored.address = some place) :
    table.FirstFit (plain.standing.view tid) plain.disk place after.disk ∧
      after.catalog.Small after.disk ∧ plain.locks.Gains tid (· = place.page) after.locks ∧
      after.locks.mode? place.page tid = some .exclusive := by
  obtain ⟨found, rfl, hinserted⟩ := Page.inserted_of_insert hinsert
  obtain rfl : found = place := Option.some.inj hplace
  have hlowest := Page.lowest_of_insert hinsert rfl
  obtain ⟨⟨id, number⟩, slot⟩ := found
  have honPage : (⟨id, number⟩ : PageAddress) = page.address := hinserted.onPage
  cases hroomed with
  | @found offset _ locks hnumber hfull hpage hroom hgains hexclusive =>
      obtain ⟨haddress, hfields⟩ := of_page hpage
      rw [haddress] at honPage
      obtain ⟨rfl, rfl⟩ := PageAddress.mk.inj honPage
      have hsize : offset < UInt32.size := Nat.lt_trans hnumber (UInt32.toNat_lt_size _)
      have hview : ∀ slot, plain.standing.view tid ⟨⟨table.id, .ofNat offset⟩, slot⟩
          = page.fields? slot := by
        intro slot
        rw [hfields]
        apply view_of_alone haccounts hguarded
        exact hgains.alone hexclusive
      refine ⟨.fits ⟨rfl, ?_, ?_, ?_⟩ ?_, hsmall, hgains, hexclusive⟩
      · rw [UInt32.lt_iff_toNat_lt, UInt32.toNat_ofNat_of_lt' hsize]
        exact hnumber
      · rw [← slots_of_page hsound htable hpage]
        exact hinserted.inside
      · rw [hview]
        simp [Page.fields?, hinserted.free]
      · intro other hfree
        apply eq_or_before_of_free haccounts hguarded hsound htable hsize hfull ?_ hfree
        exact fun lower hlower hnone => hlowest lower hlower ((hview lower).symm.trans hnone)
  | grown hcount hfull hwritten hgains hgot =>
      obtain ⟨hpage, hexclusive⟩ := hgot page rfl
      obtain ⟨hnone, hgrown, hstill⟩ := of_page_grown hsound hsmall htable hcount hwritten hpage
      rw [(of_page hpage).1] at honPage
      obtain ⟨rfl, rfl⟩ := PageAddress.mk.inj honPage
      subst hcount
      have hfirst : slot = 0 := by
        by_contra hslot
        exact hlowest 0 (Nat.pos_of_ne_zero hslot) (hnone 0)
      subst hfirst
      refine ⟨.grows ?_ rfl hwritten hgrown, hstill, hgains, hexclusive⟩
      exact fun other hfree => not_free_of_lt haccounts hguarded hsound htable hfull
        (UInt32.lt_iff_toNat_lt.mp hfree.2.1) hfree

theorem firstFit_insertRow (haccounts : Accounts initial ledger plain.standing)
    (hguarded : plain.Guarded) (hsound : plain.Sound) (hsmall : plain.catalog.Small plain.disk)
    (hinsert : plain.insertRow tid id row = (.ok stored, after)) :
    ∃ table place, plain.catalog.table id = .ok table ∧ stored.address = some place ∧
      stored.fields = row.fields ∧
      table.FirstFit (plain.standing.view tid) plain.disk place after.disk ∧
      after.catalog.Small after.disk ∧ plain.locks.Gains tid (· = place.page) after.locks ∧
      after.locks.mode? place.page tid = some .exclusive := by
  unfold insertRow at hinsert
  cases htable : plain.catalog.table id with
  | error error =>
      rw [htable] at hinsert
      exact absurd (Prod.mk.inj hinsert).1 (by simp)
  | ok table =>
      rw [htable] at hinsert
      obtain ⟨rfl, -⟩ := Catalog.of_table htable
      have hroomed := roomed_room hguarded.locks tid table
      simp only at hinsert
      split at hinsert
      · revert hinsert hroomed
        generalize plain.room tid table = outcome
        intro hroomed hinsert
        obtain ⟨result, mid⟩ := outcome
        cases result with
        | error error => exact absurd (Prod.mk.inj hinsert).1 (by simp)
        | ok page =>
            simp only at hinsert
            cases hrow : page.insert row with
            | error error =>
                rw [hrow] at hinsert
                exact absurd (Prod.mk.inj hinsert).1 (by simp)
            | ok placed =>
                obtain ⟨placed, fuller⟩ := placed
                rw [hrow] at hinsert
                obtain ⟨hsame, rfl⟩ := Prod.mk.inj hinsert
                obtain rfl := Except.ok.inj hsame
                obtain ⟨place, rfl, -⟩ := Page.inserted_of_insert hrow
                exact ⟨table, place, rfl, rfl, rfl,
                  firstFit_of_roomed haccounts hguarded hsound hsmall htable hroomed hrow rfl⟩
      · exact absurd (Prod.mk.inj hinsert).1 (by simp)

end PlainStore

namespace Store

open HeapStore.Action

variable {store after : Store} {changed still : List Page} {initial : Rows} {ledger : Ledger}
  {tid : TransactionId} {id : TableId} {row stored : Row}

/-! ## What a transaction sees -/

/-- The rows that a transaction sees: those of the cached pages that it changed, and the rows in
the files on all other pages. -/
def viewed (store : Store) (tid : TransactionId) : Rows :=
  fun place =>
    match store.pool.find? place.page with
    | some frame =>
      if frame.page.owner = some tid then frame.page.fields? place.slot else store.filedRows place
    | none => store.filedRows place

theorem viewed_eq_view (hcoherent : Coherent store changed)
    (hsmall : store.catalog.Small store.disk) (tid : TransactionId) :
    store.viewed tid = (store.plain changed).standing.view tid := by
  funext place
  have hfiled : store.filedRows place = (store.plain changed).standing.filed place := by
    rw [filedRows_eq hsmall]
    rfl
  have howner : (store.plain changed).standing.owner place.page
      = ((store.plain changed).changed? place.page).bind (·.owner) := rfl
  have hpresent : (store.plain changed).standing.present place
      = (store.plain changed).present place := rfl
  simp only [viewed, Standing.view, howner, hpresent, PlainStore.present]
  cases hfind : store.pool.find? place.page with
  | none => simp [hcoherent.changed?_of_uncached hfind, hfiled]
  | some frame =>
      obtain ⟨hframe, haddress⟩ := hcoherent.pool.find?_eq_some_iff.mp hfind
      rw [← haddress]
      cases hdirty : frame.page.owner with
      | none => simp [hcoherent.changed?_of_clean hframe hdirty, hdirty, hfiled]
      | some who =>
          rw [hcoherent.changed?_of_dirty hframe (by simp [hdirty])]
          simp [hdirty, hfiled]

/-- An edit was made on a page that nobody else had changed. -/
theorem edited_of_happens {standing last : Standing} {edit : Edit}
    (hhappens : Event.Happens (.edited tid edit) standing last) :
    (∀ other, standing.owner edit.place.page = some other → other = tid) ∧
      last = standing.edited tid edit := by
  cases hhappens with
  | edited howner _ => exact ⟨howner, rfl⟩

/-- A row was put at a place and nothing else changed: no other slot of any table and no page of
another transaction.  Its page is changed and locked by the transaction, which has got no other
lock. -/
structure Placed (store : Store) (tid : TransactionId) (place : RecordAddress)
    (fields : List Field) (after : Store) : Prop where
  rows : after.shown = store.shown.set place (some fields)
  mine : after.viewed tid = (store.viewed tid).set place (some fields)
  others : ∀ who, who ≠ tid → after.viewed who = store.viewed who
  dirty : ∀ who page, page ∈ after.pool.dirtiedBy who ↔
    page ∈ store.pool.dirtiedBy who ∨ (who = tid ∧ page = place.page)
  locks : store.pool.locks.Gains tid (· = place.page) after.pool.locks
  exclusive : after.pool.locks.mode? place.page tid = some .exclusive

/-- A row was put at a place of a page that nobody else had changed. -/
theorem placed_of_edited (hcoherent : Coherent store changed)
    (hsmall : store.catalog.Small store.disk) (hafter : Coherent after still)
    (hstill : after.catalog.Small after.disk)
    (haccounts : Accounts initial ledger (store.plain changed).standing) {place : RecordAddress}
    {fields : List Field}
    (howner : ∀ other, (store.plain changed).standing.owner place.page = some other → other = tid)
    (hstanding : (after.plain still).standing
      = (store.plain changed).standing.edited tid ⟨place, some fields⟩)
    (hgains : store.pool.locks.Gains tid (· = place.page) after.pool.locks)
    (hexclusive : after.pool.locks.mode? place.page tid = some .exclusive) :
    store.Placed tid place fields after := by
  have howned : ∀ page who, page ∈ store.pool.dirtiedBy who
      ↔ (store.plain changed).standing.owner page = some who := by
    intro page who
    rw [← hcoherent.dirtiedBy_eq]
    exact PlainStore.mem_dirtiedBy_iff hcoherent.sound
  refine ⟨?_, ?_, ?_, ?_, hgains, hexclusive⟩
  · rw [shown_eq_present hafter hstill, shown_eq_present hcoherent hsmall]
    exact congrArg Standing.present hstanding
  · rw [viewed_eq_view hafter hstill, viewed_eq_view hcoherent hsmall, hstanding]
    exact haccounts.view_edited howner
  · intro who hwho
    rw [viewed_eq_view hafter hstill, viewed_eq_view hcoherent hsmall, hstanding]
    exact Accounts.view_edited_other howner hwho
  · intro who page
    rw [← hafter.dirtiedBy_eq, PlainStore.mem_dirtiedBy_iff hafter.sound, howned]
    show (after.plain still).standing.owner page = some who ↔ _
    rw [hstanding]
    show (if page = place.page then some tid else _) = some who ↔ _
    split
    · rename_i hpage
      subst hpage
      constructor
      · exact fun hwho => Or.inr ⟨(Option.some.inj hwho).symm, rfl⟩
      · rintro (hbefore | ⟨rfl, -⟩)
        · rw [howner who hbefore]
        · rfl
    · rename_i hpage
      exact ⟨Or.inl, fun hdirty => hdirty.resolve_right fun hsame => hpage hsame.2⟩

/-- A row that is inserted goes into the first free slot of its table, or to the start of a page by
which the table grows, and nothing else changes. -/
theorem insert_first_fit {start : Store} {turns : List Turn} (hopened : Opened start)
    (hapart : start.catalog.Apart start.log.location)
    (htransactional : ∀ turn ∈ turns, turn.operation.Transactional) (hadmits : start.Admits turns)
    (hvalid : row.Valid)
    (hinsert : (start.follow turns).answer (.insert tid id row) = .ok (.row stored)) :
    ∃ table place, (start.follow turns).catalog.table id = .ok table ∧
      stored.address = some place ∧ stored.fields = row.fields ∧
      table.FirstFit ((start.follow turns).viewed tid) (start.follow turns).disk place
        ((start.follow turns).step (.insert tid id row)).2.disk ∧
      (start.follow turns).Placed tid place row.fields
        ((start.follow turns).step (.insert tid id row)).2 := by
  obtain ⟨changed, hcoherent, hguarded, haccounts⟩ :=
    (hopened.fresh.accounted hapart).follow turns hadmits htransactional
  have hsmall := hadmits.last
  revert hcoherent hguarded haccounts hsmall hinsert
  generalize start.follow turns = store
  intro hinsert hcoherent hguarded haccounts hsmall
  have hagree := insertRow_agree hcoherent hsmall tid id hvalid
  rw [answer, step_insert] at hinsert
  rw [step_insert]
  revert hinsert hagree
  generalize (insertRow tid id row).perform store = real
  cases hplain : (store.plain changed).insertRow tid id row with
  | mk result last =>
      intro hinsert hagree
      cases hagree with
      | error hafter => exact absurd hinsert (by simp [Except.map])
      | @ok placed _ after still hafter hsame =>
          obtain rfl := hsame
          obtain rfl : placed = stored := by simpa [Except.map, Reply.answer] using hinsert
          obtain ⟨table, place, htable, haddress, hfields, hfit, hstill, hgains, hexclusive⟩ :=
            PlainStore.firstFit_insertRow haccounts hguarded hcoherent.sound hsmall hplain
          have hconducts := PlainStore.conducts_insertRow hguarded hcoherent.sound hsmall tid id row
          rw [hplain] at hconducts
          obtain ⟨error, herror, -⟩ | ⟨other, found, hother, hfound, hconducts⟩ := hconducts
          · exact absurd herror (by simp)
          obtain rfl := Except.ok.inj hother
          obtain rfl := Option.some.inj (haddress.symm.trans hfound)
          obtain ⟨howner, hstanding⟩ := edited_of_happens hconducts.happens
          rw [hfields] at hstanding
          exact ⟨table, place, htable, haddress, hfields,
            (viewed_eq_view hcoherent hsmall tid).symm ▸ hfit,
            placed_of_edited hcoherent hsmall hafter hstill haccounts howner hstanding hgains
              hexclusive⟩

/-- The first page is full and the second one has one row; the transaction has taken a row away from
the first page, and the next row goes there. -/
theorem insert_first_fit_sample :
    let turns := .step .begin :: ([7, 8, 9, 10].map fun value =>
        .step (.insert 1 sampleTable (sampleRow value)))
      ++ [.step (.commit 1), .step .begin, .step (.delete 2 (sampleRowAt 8 0 1))]
    let store := sample.follow turns
    let after := (store.step (.insert 2 sampleTable (sampleRow 11))).2
    sampleHeap.FirstFit (store.viewed 2) store.disk ⟨⟨sampleTable, 0⟩, 1⟩ after.disk ∧
      store.Placed 2 ⟨⟨sampleTable, 0⟩, 1⟩ [.int 11] after := by
  intro turns store after
  have hinsert : store.answer (.insert 2 sampleTable (sampleRow 11))
      = .ok (.row (sampleRowAt 11 0 1)) := by decide +kernel
  have htransactional : ∀ turn ∈ turns, turn.operation.Transactional := by
    simp [turns, Turn.operation, Operation.Transactional, valid_sampleRow]
  obtain ⟨table, place, htable, haddress, -, hfit, hplaced⟩ := insert_first_fit opened_sample
    (by decide +kernel) htransactional (by decide +kernel) (valid_sampleRow 11) hinsert
  obtain rfl := Option.some.inj haddress
  have hheap : store.catalog.table sampleTable = .ok sampleHeap := by decide +kernel
  obtain rfl := Except.ok.inj (htable.symm.trans hheap)
  exact ⟨hfit, hplaced⟩

end Store

end HeapStore
