import HeapStore.Proofs.Coherence
import HeapStore.Proofs.Ledger
import HeapStore.Proofs.Locks

/-!
# Changed pages are locked

What a plain store holds, as a `Standing`: the rows in its files, the rows with all changes, and
who changed which page.  In a guarded store every changed page is locked by the transaction that
changed it, exclusively.  So a transaction that gets a page finds on it what the file has or what
it put there itself (`got_of_getPage`), and it puts rows only on pages that are its own.

The search for a free slot gives locks up again.  It gives up only those that the transaction did
not have before, on pages that it did not change (`kept_seek`).
-/

namespace HeapStore

/-! ## Rows of pages -/

namespace Page

/-- The fields of the row in a slot. -/
def fields? (page : Page) (slot : Nat) : Option (List Field) :=
  (page.row? slot).map (·.fields)

@[simp] theorem fields?_normal (page : Page) (slot : Nat) :
    page.normal.fields? slot = page.fields? slot := by
  simp only [fields?, row?_normal, normalSlot]
  cases page.row? slot with
  | none => rfl
  | some row => rfl

@[simp] theorem fields?_withOwner (page : Page) (owner : Option TransactionId) (slot : Nat) :
    (page.withOwner owner).fields? slot = page.fields? slot := rfl

@[simp] theorem fields?_settled (page : Page) (slot : Nat) :
    page.settled.fields? slot = page.fields? slot := rfl

theorem fields?_setSlot {page : Page} {slot : Nat} (hslot : slot < page.slots.length)
    (content : Option Row) (other : Nat) :
    (page.setSlot slot content).fields? other =
      if other = slot then content.map (·.fields) else page.fields? other := by
  simp only [fields?, row?_setSlot hslot]
  split
  · rfl
  · rfl

end Page

namespace Catalog

variable {catalog : Catalog} {disk : Disk}

/-- The rows in the files of the registered tables. -/
def rows (catalog : Catalog) (disk : Disk) : Rows :=
  fun place => (catalog.filed? disk place.page).bind (·.fields? place.slot)

/-- A table that grows by a page of zeros gets no rows. -/
theorem rows_of_appended (hsound : catalog.Sound) (hsmall : catalog.Small disk) {id : TableId}
    {table : Table} (htable : catalog.table id = .ok table) {content : Content}
    (happended : table.Written (disk.content table.location)
      (table.pageCount (disk.content table.location)) (Bytes.zeros table.pageSize) content) :
    catalog.rows (disk.write table.location content) = catalog.rows disk := by
  have hpos : 0 < table.pageSize := by
    rw [hsound.pageSize_of_table htable]
    exact hsound.pos
  have hfile := hsmall.of_table htable
  funext place
  simp only [rows, filed?_write hsound htable]
  split
  · rename_i hid
    have hown : catalog.table place.page.table = .ok table := by rw [hid, htable]
    rw [filed?_eq_of_table hown]
    by_cases hnumber : place.page.number = table.pageCount (disk.content table.location)
    -- The new page is zeros, and a page of zeros has no rows.
    · rw [hnumber, Table.filed?_pageCount hfile]
      cases hfiled : table.filed? content
          (table.pageCount (disk.content table.location)) with
      | none => rfl
      | some page =>
          unfold Table.filed? at hfiled
          split at hfiled
          · rw [happended.slice_same] at hfiled
            simp [Page.fields?, Page.row?_of_zeros (ok_of_toOption hfiled)]
          · exact absurd hfiled (by simp)
    · rw [happended.filed?_appended hpos hfile hnumber]
  · rfl

end Catalog

namespace PlainStore

variable {plain after last : PlainStore} {tid : TransactionId} {address : PageAddress}
  {page : Page}

/-! ## Standings of plain stores -/

/-- The transaction that changed a page. -/
def owner? (plain : PlainStore) (address : PageAddress) : Option TransactionId :=
  (plain.changed? address).bind (·.owner)

/-- The rows with all changes. -/
def present (plain : PlainStore) : Rows :=
  fun place =>
    match plain.changed? place.page with
    | some page => page.fields? place.slot
    | none => plain.catalog.rows plain.disk place

/-- What the store holds. -/
def standing (plain : PlainStore) : Standing :=
  ⟨plain.catalog.rows plain.disk, plain.present, plain.owner?⟩

/-- Every changed page is locked exclusively by the transaction that changed it. -/
structure Guarded (plain : PlainStore) : Prop where
  locks : plain.locks.Sound
  owned : ∀ address tid, plain.owner? address = some tid →
    plain.locks.mode? address tid = some .exclusive

theorem Guarded.owner_eq (hguarded : plain.Guarded)
    (hexclusive : plain.locks.mode? address tid = some .exclusive) {other : TransactionId}
    (howned : plain.owner? address = some other) : other = tid := by
  have hother := LockTable.holds_of_mode? (hguarded.owned address other howned)
  exact LockTable.alone hexclusive hother

theorem address_of_changed? (hchanged : plain.changed? address = some page) :
    page.address = address := by
  simpa using List.find?_some hchanged

/-- A page that is not in its file was not changed. -/
theorem changed?_of_missing (hsound : plain.Sound)
    (hmissing : plain.catalog.filed? plain.disk address = none) :
    plain.changed? address = none := by
  cases hfound : plain.changed? address with
  | none => rfl
  | some found =>
      obtain ⟨hmem, rfl⟩ := hsound.changed?_eq_some_iff.mp hfound
      obtain ⟨former, hfiled, -⟩ := (hsound.changed found hmem).filed
      exact absurd (hfiled.symm.trans hmissing) (by simp)

theorem present_of_unchanged {place : RecordAddress}
    (hchanged : plain.changed? place.page = none) :
    plain.present place = plain.catalog.rows plain.disk place := by
  simp only [present, hchanged]

/-- A page that is read is the one asked for, with the rows that are present there. -/
theorem of_page (hpage : plain.page address = .ok page) :
    page.address = address ∧ ∀ slot, page.fields? slot = plain.present ⟨address, slot⟩ := by
  cases hchanged : plain.changed? address with
  | some found =>
      rw [page_of_changed hchanged] at hpage
      obtain rfl := Except.ok.inj hpage
      refine ⟨address_of_changed? hchanged, ?_⟩
      intro slot
      simp only [present, hchanged]
  | none =>
      simp only [PlainStore.page, hchanged] at hpage
      split at hpage
      · exact absurd hpage (by simp)
      · have hfiled := Catalog.filed?_of_read hpage
        refine ⟨(Catalog.of_filed? hfiled).address, ?_⟩
        intro slot
        simp only [present, hchanged, Catalog.rows, hfiled, Option.bind_some]

/-! ## Getting pages -/

/-- The store holds the same, it is guarded, and no lock was lost. -/
structure Kept (plain after : PlainStore) : Prop where
  guarded : after.Guarded
  standing : after.standing = plain.standing
  holds : ∀ address who, plain.locks.holds address who = true →
    after.locks.holds address who = true

theorem Kept.refl (hguarded : plain.Guarded) : plain.Kept plain :=
  ⟨hguarded, rfl, fun _ _ hheld => hheld⟩

theorem Kept.trans (hfirst : plain.Kept after) (hsecond : after.Kept last) : plain.Kept last :=
  ⟨hsecond.guarded, hsecond.standing.trans hfirst.standing,
    fun address who hheld => hsecond.holds address who (hfirst.holds address who hheld)⟩

/-- What comes with a page that a transaction got. -/
structure Got (plain : PlainStore) (tid : TransactionId) (address : PageAddress)
    (access : Access) (page : Page) (after : PlainStore) : Prop where
  held : after.locks.holds address tid = true
  exclusive : access = .readWrite → after.locks.mode? address tid = some .exclusive
  owner : ∀ other, plain.owner? address = some other → other = tid
  page : plain.page address = .ok page

theorem kept_of_granted (hguarded : plain.Guarded) {mode : LockMode} {locks : LockTable}
    (hgranted : plain.locks.Granted address tid mode locks) : plain.Kept (plain.withLocks locks) :=
  ⟨⟨hgranted.sound, fun address who howned =>
    hgranted.kept address who (hguarded.owned address who howned)⟩, rfl, hgranted.holds⟩

/-- To get a page changes nothing but locks. -/
theorem kept_getPage (hguarded : plain.Guarded) (tid : TransactionId) (address : PageAddress)
    (access : Access) : plain.Kept (plain.getPage tid address access).2 := by
  unfold getPage
  cases hacquire : plain.locks.acquire address tid access.lockMode with
  | error error => exact .refl hguarded
  | ok locks =>
      exact kept_of_granted hguarded (LockTable.granted_of_acquire hguarded.locks hacquire)

/-- A page that a transaction gets is locked for it, and is the page as it was. -/
theorem of_getPage (hget : plain.getPage tid address access = (.ok page, after)) :
    ∃ locks, plain.locks.acquire address tid access.lockMode = .ok locks ∧
      after = plain.withLocks locks ∧ plain.page address = .ok page := by
  unfold getPage at hget
  cases hacquire : plain.locks.acquire address tid access.lockMode with
  | error error =>
      rw [hacquire] at hget
      exact absurd (Prod.mk.inj hget).1 (by simp)
  | ok locks =>
      rw [hacquire] at hget
      obtain ⟨hpage, rfl⟩ := Prod.mk.inj hget
      exact ⟨locks, rfl, rfl, hpage⟩

theorem got_of_getPage (hguarded : plain.Guarded) {access : Access}
    (hget : plain.getPage tid address access = (.ok page, after)) :
    plain.Got tid address access page after := by
  obtain ⟨locks, hacquire, rfl, hpage⟩ := of_getPage hget
  have hgranted := LockTable.granted_of_acquire hguarded.locks hacquire
  refine ⟨hgranted.held, ?_, ?_, hpage⟩
  · rintro rfl
    exact hgranted.exclusive rfl
  · intro other howned
    exact hgranted.owner other (hguarded.owned address other howned)

/-! ## Searching for room -/

/-- A page that a transaction may change, as it is now. -/
structure Open (after : PlainStore) (tid : TransactionId) (page : Page) : Prop where
  exclusive : after.locks.mode? page.address tid = some .exclusive
  page : after.page page.address = .ok page

theorem open_of_getPage (hguarded : plain.Guarded)
    (hget : plain.getPage tid address .readWrite = (.ok page, after)) : after.Open tid page := by
  have hgot := got_of_getPage hguarded hget
  obtain ⟨haddress, -⟩ := of_page hgot.page
  subst haddress
  obtain ⟨locks, -, rfl, hpage⟩ := of_getPage hget
  exact ⟨hgot.exclusive rfl, hpage⟩

/-- A lock that was not there before the page was got may be given up again. -/
theorem kept_release (hguarded : plain.Guarded) (hkept : plain.Kept after)
    (hfree : plain.locks.holds address tid = false) :
    plain.Kept (after.withLocks (after.locks.release address tid)) := by
  have hmode := LockTable.mode?_release hkept.guarded.locks address tid
  -- a page that the transaction did not hold was not changed by it
  have hother : ∀ other who, plain.locks.holds other who = true →
      ¬ (other = address ∧ who = tid) := by
    rintro other who hheld ⟨rfl, rfl⟩
    rw [hfree] at hheld
    exact absurd hheld (by simp)
  refine ⟨⟨LockTable.sound_release hkept.guarded.locks address tid, ?_⟩, hkept.standing, ?_⟩
  · intro other who howned
    have howner : after.owner? other = some who := howned
    have hbefore : plain.owner? other = some who := by
      have hsame := congrArg (fun standing => standing.owner other) hkept.standing
      exact hsame.symm.trans howner
    have hheld := LockTable.holds_of_mode? (hguarded.owned other who hbefore)
    show (after.locks.release address tid).mode? other who = _
    rw [hmode, if_neg (hother other who hheld)]
    exact hkept.guarded.owned other who howner
  · intro other who hheld
    show (after.locks.release address tid).holds other who = true
    rw [LockTable.holds, hmode, if_neg (hother other who hheld)]
    exact hkept.holds other who hheld

/-- The search changes nothing but locks, and a page that it finds may be changed. -/
theorem kept_seek (hguarded : plain.Guarded) (tid : TransactionId) (table : Table)
    (count number : Nat) :
    plain.Kept (seek tid table count number plain).2 ∧
      ∀ page, (seek tid table count number plain).1 = .ok (some page) →
        (seek tid table count number plain).2.Open tid page := by
  induction count generalizing plain number with
  | zero => exact ⟨.refl hguarded, fun page hpage => absurd hpage (by simp [seek])⟩
  | succ count ih =>
      simp only [seek]
      generalize haddress : (⟨table.id, UInt32.ofNat number⟩ : PageAddress) = address
      have hkept := kept_getPage hguarded tid address .readWrite
      cases hget : plain.getPage tid address .readWrite with
      | mk result after =>
          rw [hget] at hkept
          cases result with
          | error error => exact ⟨hkept, fun page hpage => absurd hpage (by simp)⟩
          | ok page =>
              simp only
              split
              · refine ⟨hkept, ?_⟩
                intro found hfound
                obtain rfl := Option.some.inj (Except.ok.inj hfound)
                exact open_of_getPage hguarded hget
              -- A full page is left behind; its lock goes unless it was there before.
              · have hnext : plain.Kept (if plain.locks.holds address tid then after
                    else after.withLocks (after.locks.release address tid)) := by
                  split
                  · exact hkept
                  · rename_i hfree
                    exact kept_release hguarded hkept (by simpa using hfree)
                obtain ⟨hrest, hopen⟩ := ih hnext.guarded (number + 1)
                exact ⟨hnext.trans hrest, hopen⟩

theorem kept_grow (hguarded : plain.Guarded) (hsound : plain.Sound)
    (hsmall : plain.catalog.Small plain.disk) {id : TableId} {table : Table}
    (htable : plain.catalog.table id = .ok table) : plain.Kept (plain.grow table).2 := by
  unfold grow
  cases happend : table.appendPage plain.armed (plain.disk.content table.location) with
  | error error => exact .refl hguarded
  | ok result =>
      obtain ⟨address, content⟩ := result
      obtain ⟨-, happended⟩ := Table.appended_of_appendPage happend
      have hrows := Catalog.rows_of_appended hsound.catalog hsmall htable happended
      refine ⟨⟨hguarded.locks, hguarded.owned⟩, ?_, fun _ _ hheld => hheld⟩
      simp only [standing, Standing.mk.injEq]
      refine ⟨hrows, ?_, rfl⟩
      funext place
      simp only [present, hrows]
      rfl

theorem sound_withLocks (hsound : plain.Sound) (locks : LockTable) :
    (plain.withLocks locks).Sound :=
  ⟨hsound.catalog, hsound.apart, hsound.addresses, hsound.changed⟩

theorem getPage_withLocks (tid : TransactionId) (address : PageAddress) (access : Access)
    (plain : PlainStore) :
    ∃ locks, (plain.getPage tid address access).2 = plain.withLocks locks := by
  unfold getPage
  cases plain.locks.acquire address tid access.lockMode with
  | error error => exact ⟨plain.locks, rfl⟩
  | ok locks => exact ⟨locks, rfl⟩

theorem seek_withLocks (tid : TransactionId) (table : Table) (count number : Nat)
    (plain : PlainStore) :
    ∃ locks, (seek tid table count number plain).2 = plain.withLocks locks := by
  induction count generalizing plain number with
  | zero => exact ⟨plain.locks, rfl⟩
  | succ count ih =>
      simp only [seek]
      generalize (⟨table.id, UInt32.ofNat number⟩ : PageAddress) = address
      obtain ⟨locks, hafter⟩ := getPage_withLocks tid address .readWrite plain
      revert hafter
      rcases plain.getPage tid address .readWrite with ⟨result, after⟩
      rintro rfl
      cases result with
      | error error => exact ⟨locks, rfl⟩
      | ok page =>
          simp only
          split
          · exact ⟨locks, rfl⟩
          · split
            · exact ih (number + 1) (plain.withLocks locks)
            · exact ih (number + 1) (plain.withLocks (locks.release address tid))

/-- To make room changes nothing but locks and the length of the file, and the page with room may
be changed. -/
theorem kept_room (hguarded : plain.Guarded) (hsound : plain.Sound)
    (hsmall : plain.catalog.Small plain.disk) (tid : TransactionId) {id : TableId} {table : Table}
    (htable : plain.catalog.table id = .ok table) :
    plain.Kept (plain.room tid table).2 ∧
      ∀ page, (plain.room tid table).1 = .ok page → (plain.room tid table).2.Open tid page := by
  simp only [room]
  generalize (table.pageCount (plain.disk.content table.location)).toNat = count
  obtain ⟨hkept, hopen⟩ := kept_seek hguarded tid table count 0
  obtain ⟨locks, hafter⟩ := seek_withLocks tid table count 0 plain
  revert hkept hopen hafter
  rcases seek tid table count 0 plain with ⟨result, after⟩
  intro hkept hopen hafter
  simp only at hafter
  cases result with
  | error error => exact ⟨hkept, fun page hpage => absurd hpage (by simp)⟩
  | ok found =>
      cases found with
      | some page =>
          refine ⟨hkept, ?_⟩
          intro other hother
          obtain rfl := Except.ok.inj hother
          exact hopen page rfl
      | none =>
          -- The search has changed locks only, so the file is still below the limit.
          have hgrown : after.Kept (after.grow table).2 := by
            subst hafter
            exact kept_grow hkept.guarded (sound_withLocks hsound locks) hsmall htable
          revert hgrown
          simp only
          rcases after.grow table with ⟨result, grown⟩
          intro hgrown
          cases result with
          | error error =>
              exact ⟨hkept.trans hgrown, fun page hpage => absurd hpage (by simp)⟩
          | ok address =>
              refine ⟨(hkept.trans hgrown).trans
                (kept_getPage hgrown.guarded tid address .readWrite), ?_⟩
              intro page hpage
              exact open_of_getPage hgrown.guarded (Prod.ext hpage rfl)

/-! ## Changing rows -/

theorem changed?_put (plain : PlainStore) (page : Page) (address : PageAddress) :
    (plain.put page).changed? address =
      if address = page.address then some page else plain.changed? address := by
  simp only [changed?, put, drop, List.find?_cons]
  by_cases haddress : address = page.address
  · simp [haddress]
  -- A page with another address is not the one that was left out.
  · have hkept : (fun other : Page =>
        !decide (other.address = page.address) && decide (other.address = address))
          = fun other => decide (other.address = address) := by
      funext other
      by_cases hother : other.address = address
      · simp [hother, haddress]
      · simp [hother]
    simp [haddress, Ne.symm haddress, List.find?_filter, hkept]

/-- What a step does, given what it means for the transactions. -/
structure Conducts (plain : PlainStore) (event : Event) (after : PlainStore) : Prop where
  guarded : after.Guarded
  happens : event.Happens plain.standing after.standing
  holds : ∀ address who, Event.ends who event = false → plain.locks.holds address who = true →
    after.locks.holds address who = true

theorem Kept.conducts (hkept : plain.Kept after) : plain.Conducts .quiet after := by
  refine ⟨hkept.guarded, ?_, fun address who _ => hkept.holds address who⟩
  rw [hkept.standing]
  exact .quiet _

/-- A page that a transaction may change gets a row or loses one. -/
theorem conducts_put (hkept : plain.Kept after) (hopen : after.Open tid page)
    {place : RecordAddress} (hplace : place.page = page.address) {content : Option (List Field)}
    (hfits : (page.fields? place.slot).isSome ≠ content.isSome) {next : Page}
    (haddress : next.address = page.address) (howner : next.owner = some tid)
    (hfields : ∀ slot, next.fields? slot =
      if slot = place.slot then content else page.fields? slot) :
    plain.Conducts (.edited tid ⟨place, content⟩) (after.put next) := by
  obtain ⟨-, hpresent⟩ := of_page hopen.page
  -- Whoever changed the page holds it exclusively, and so does this transaction.
  have howned : ∀ other, after.owner? place.page = some other → other = tid := by
    intro other hother
    rw [hplace] at hother
    exact hkept.guarded.owner_eq hopen.exclusive hother
  have hstanding : (after.put next).standing = after.standing.edited tid ⟨place, content⟩ := by
    simp only [standing, Standing.edited, Standing.mk.injEq]
    refine ⟨rfl, ?_, ?_⟩
    · funext other
      obtain ⟨otherPage, slot⟩ := other
      simp only [present, changed?_put, haddress, Rows.set]
      by_cases hother : otherPage = page.address
      · subst hother
        -- On the page itself: the slot of the edit, or another one.
        have hsame : (⟨page.address, slot⟩ : RecordAddress) = place ↔ slot = place.slot := by
          obtain ⟨placePage, placeSlot⟩ := place
          simp only at hplace
          simp [hplace]
        simp only [if_true, hfields, hsame]
        split
        · rfl
        · exact hpresent slot
      · have hne : (⟨otherPage, slot⟩ : RecordAddress) ≠ place := by
          rintro rfl
          exact hother hplace
        simp only [if_neg hother, if_neg hne]
        rfl
    · funext other
      simp only [owner?, changed?_put, haddress, hplace]
      split
      · exact howner
      · rfl
  refine ⟨⟨hkept.guarded.locks, ?_⟩, ?_, fun address who _ => hkept.holds address who⟩
  · intro address who hwho
    show after.locks.mode? address who = some .exclusive
    simp only [owner?, changed?_put, haddress] at hwho
    split at hwho
    · rename_i hsame
      rw [Option.bind_some, howner] at hwho
      rw [hsame, ← Option.some.inj hwho]
      exact hopen.exclusive
    · exact hkept.guarded.owned address who hwho
  · rw [hstanding, ← hkept.standing]
    refine .edited howned ?_
    have hslot := hpresent place.slot
    rw [← hplace] at hslot
    show (after.present place).isSome ≠ _
    rw [← hslot]
    exact hfits

/-- A row that is inserted is put at the address that is given back; an insert that fails changes
no rows. -/
theorem conducts_insertRow (hguarded : plain.Guarded) (hsound : plain.Sound)
    (hsmall : plain.catalog.Small plain.disk) (tid : TransactionId) (id : TableId) (row : Row) :
    (∃ error, (plain.insertRow tid id row).1 = .error error ∧
      plain.Conducts .quiet (plain.insertRow tid id row).2) ∨
    ∃ stored place, (plain.insertRow tid id row).1 = .ok stored ∧ stored.address = some place ∧
      plain.Conducts (.edited tid ⟨place, some stored.fields⟩) (plain.insertRow tid id row).2 := by
  unfold insertRow
  cases htable : plain.catalog.table id with
  | error error => exact Or.inl ⟨error, rfl, (Kept.refl hguarded).conducts⟩
  | ok table =>
      simp only
      split
      · obtain ⟨hkept, hopen⟩ := kept_room hguarded hsound hsmall tid htable
        revert hkept hopen
        rcases plain.room tid table with ⟨result, after⟩
        intro hkept hopen
        cases result with
        | error error => exact Or.inl ⟨error, rfl, hkept.conducts⟩
        | ok page =>
            cases hinsert : page.insert row with
            | error error => simp only [hinsert]; exact Or.inl ⟨error, rfl, hkept.conducts⟩
            | ok result =>
                obtain ⟨stored, fuller⟩ := result
                obtain ⟨place, rfl, hinserted⟩ := Page.inserted_of_insert hinsert
                simp only [hinsert]
                refine Or.inr ⟨_, place, rfl, rfl, ?_⟩
                -- The slot was free, so the insert fits.
                have hfree : page.fields? place.slot = none := by
                  simp [Page.fields?, hinserted.free]
                apply conducts_put hkept (hopen page rfl) hinserted.onPage
                · simp [hfree]
                · rw [hinserted.result]
                  rfl
                · rfl
                · intro slot
                  rw [Page.fields?_normal, Page.fields?_withOwner, hinserted.result,
                    Page.fields?_setSlot hinserted.inside]
                  rfl
      · exact Or.inl ⟨_, rfl, (Kept.refl hguarded).conducts⟩

/-- A row that is deleted is taken away from its address; a delete that fails changes no rows. -/
theorem conducts_deleteRow (hguarded : plain.Guarded) (tid : TransactionId) (row : Row) :
    (∃ error, (plain.deleteRow tid row).1 = .error error ∧
      plain.Conducts .quiet (plain.deleteRow tid row).2) ∨
    ∃ place, (plain.deleteRow tid row).1 = .ok () ∧ row.address = some place ∧
      plain.Conducts (.edited tid ⟨place, none⟩) (plain.deleteRow tid row).2 := by
  have hnone : ∀ error, plain.Conducts .quiet ((Except.error error, plain) : Outcome Unit).2 :=
    fun _ => (Kept.refl hguarded).conducts
  unfold deleteRow
  cases haddress : row.address with
  | none => exact Or.inl ⟨_, rfl, hnone .missingAddress⟩
  | some place =>
      simp only
      cases plain.catalog.table place.page.table with
      | error error => exact Or.inl ⟨error, rfl, hnone error⟩
      | ok table =>
          simp only
          split
          · exact Or.inl ⟨_, rfl, hnone (.rowNotOnPage place.page)⟩
          · have hkept := kept_getPage hguarded tid place.page .readWrite
            cases hget : plain.getPage tid place.page .readWrite with
            | mk result after =>
                rw [hget] at hkept
                cases result with
                | error error => exact Or.inl ⟨error, rfl, hkept.conducts⟩
                | ok page =>
                    simp only
                    cases hdelete : page.delete row with
                    | error error => exact Or.inl ⟨error, rfl, hkept.conducts⟩
                    | ok fewer =>
                        obtain ⟨other, hdeleted⟩ := Page.deleted_of_delete hdelete
                        have hsame : place = other :=
                          Option.some.inj (haddress.symm.trans hdeleted.address)
                        subst hsame
                        refine Or.inr ⟨place, rfl, rfl, ?_⟩
                        -- The slot was in use, so the delete fits.
                        have hused : (page.fields? place.slot).isSome = true := by
                          have hrow := hdeleted.used
                          simpa [Page.fields?, Page.isUsed] using hrow
                        apply conducts_put hkept (open_of_getPage hguarded hget) hdeleted.onPage
                        · simp [hused]
                        · rw [hdeleted.result]
                          rfl
                        · rfl
                        · intro slot
                          rw [Page.fields?_normal, Page.fields?_withOwner, hdeleted.result,
                            Page.fields?_setSlot (Page.lt_of_isUsed hdeleted.used)]
                          rfl

/-- A scan changes nothing but locks. -/
theorem kept_scanPages (hguarded : plain.Guarded) (tid : TransactionId) (table : Table)
    (count number : Nat) : plain.Kept (scanPages tid table count number plain).2 := by
  induction count generalizing plain number with
  | zero => exact .refl hguarded
  | succ count ih =>
      unfold scanPages
      have hkept := kept_getPage hguarded tid ⟨table.id, UInt32.ofNat number⟩ .readOnly
      revert hkept
      rcases plain.getPage tid ⟨table.id, UInt32.ofNat number⟩ .readOnly with ⟨result, after⟩
      intro hkept
      cases result with
      | error error => exact hkept
      | ok page => exact hkept.trans (ih hkept.guarded (number + 1))

end PlainStore

end HeapStore
