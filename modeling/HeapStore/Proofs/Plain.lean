import HeapStore.Proofs.Perform

/-!
# Stores without a cache

A `PlainStore` keeps the changed pages and reads every other page from its file each time.  It has
the disk, the log, the locks and the capacity of a store, but nothing in it depends on which clean
pages are cached.  `PlainStore.step` performs the operations on it; eviction does nothing there.
`HeapStore.Proofs.Agreement` proves that a store answers as the plain store does.

What a caller sees of a reply is an `Answer`: a frame stands for its page, and rows are compared by
address and fields.  The column names under which a row was built are not stored, and are kept only
until its page is read again.
-/

namespace HeapStore

/-! ## Answers -/

/-- Where a row is stored, and its fields. -/
def Row.entry (row : Row) : Option RecordAddress × List Field :=
  (row.address, row.fields)

/-- What a caller sees of a reply. -/
inductive Answer where
  | done
  | transaction (tid : TransactionId)
  | page (page : Page)
  | row (row : Row)
  | found (rows : List (Except StoreError (Option RecordAddress × List Field)))
  | tables (ids : List TableId)
  | released (held : Bool)
  deriving DecidableEq

/-- The answer in a reply. -/
def Reply.answer : Reply → Answer
  | .done => .done
  | .transaction tid => .transaction tid
  | .frame handed => .page handed.page.normal
  | .row placed => .row placed
  | .found rows => .found (rows.map (·.map Row.entry))
  | .tables ids => .tables ids
  | .released held => .released held

/-- A store that reads its files anew for every page that was not changed. -/
structure PlainStore where
  disk : Disk
  armed : Failpoints
  log : Log
  catalog : Catalog
  capacity : Nat
  changed : List Page
  locks : LockTable
  nextTransaction : TransactionId

namespace PlainStore

/-- What a step gives, and the store after it. -/
abbrev Outcome (α : Type) := Except StoreError α × PlainStore

variable (plain : PlainStore) (tid : TransactionId) (address : PageAddress)

/-! ## Pages -/

/-- The changed page with this address. -/
def changed? : Option Page :=
  plain.changed.find? (·.address = address)

/-- The store with other locks. -/
def withLocks (locks : LockTable) : PlainStore :=
  { plain with locks := locks }

/-- The store without a changed page at this address. -/
def drop : PlainStore :=
  { plain with changed := plain.changed.filter (·.address ≠ address) }

/-- The store with this changed page in the place of an earlier one. -/
def put (page : Page) : PlainStore :=
  { plain with changed := page :: (plain.drop page.address).changed }

/-- The store after a record was written to its log. -/
def logged (record : LogRecord) : PlainStore :=
  { plain with
    log := (plain.log.after plain.disk tid record).1
    disk := (plain.log.after plain.disk tid record).2 }

/-- A page as it is now.  Where all pages that fit were changed, no other can be read. -/
def page : Except StoreError Page :=
  match plain.changed? address with
  | some page => .ok page
  | none =>
    if plain.capacity ≤ plain.changed.length then .error (.allPagesDirty plain.changed.length)
    else plain.catalog.read plain.disk address

variable {plain address} in
theorem page_of_changed {page : Page} (hchanged : plain.changed? address = some page) :
    plain.page address = .ok page := by
  simp only [PlainStore.page, hchanged]

variable {plain address} in
theorem page_of_room (hchanged : plain.changed? address = none)
    (hroom : plain.changed.length < plain.capacity) :
    plain.page address = plain.catalog.read plain.disk address := by
  simp only [page, hchanged, if_neg (Nat.not_le.mpr hroom)]

variable {plain address} in
theorem page_of_full (hchanged : plain.changed? address = none)
    (hfull : plain.capacity ≤ plain.changed.length) :
    plain.page address = .error (.allPagesDirty plain.changed.length) := by
  simp only [page, hchanged, if_pos hfull]

/-- A page under a lock. -/
def getPage (access : Access) : Outcome Page :=
  match plain.locks.acquire address tid access.lockMode with
  | .error error => (.error error, plain)
  | .ok locks => ((plain.withLocks locks).page address, plain.withLocks locks)

/-! ## Rows -/

/-- Looks for a page with a free slot among `count` pages from page `number` on. -/
def seek (table : Table) : (count number : Nat) → PlainStore → Outcome (Option Page)
  | 0, _, plain => (.ok none, plain)
  | count + 1, number, plain =>
    let address : PageAddress := ⟨table.id, UInt32.ofNat number⟩
    match plain.getPage tid address .readWrite with
    | (.error error, after) => (.error error, after)
    | (.ok page, after) =>
      if 0 < page.freeSlots then (.ok (some page), after)
      else seek table count (number + 1)
        (if plain.locks.holds address tid then after
          else after.withLocks (after.locks.release address tid))

/-- Adds a page of zeros to a table. -/
def grow (table : Table) : Outcome PageAddress :=
  match table.appendPage plain.armed (plain.disk.content table.location) with
  | .error error => (.error error, plain)
  | .ok (address, content) =>
    (.ok address, { plain with disk := plain.disk.write table.location content })

/-- A page with a free slot, in the table that has grown if need be. -/
def room (table : Table) : Outcome Page :=
  let count := table.pageCount (plain.disk.content table.location)
  match seek tid table count.toNat 0 plain with
  | (.error error, after) => (.error error, after)
  | (.ok (some page), after) => (.ok page, after)
  | (.ok none, after) =>
    match after.grow table with
    | (.error error, grown) => (.error error, grown)
    | (.ok address, grown) => grown.getPage tid address .readWrite

/-- Inserts a row into a table. -/
def insertRow (id : TableId) (row : Row) : Outcome Row :=
  match plain.catalog.table id with
  | .error error => (.error error, plain)
  | .ok table =>
    if row.schema.compatible table.schema then
      match plain.room tid table with
      | (.error error, after) => (.error error, after)
      | (.ok page, after) =>
        match page.insert row with
        | .error error => (.error error, after)
        | .ok (placed, fuller) => (.ok placed, after.put (fuller.withOwner (some tid)).normal)
    else (.error (.schemaMismatch table.id), plain)

/-- Deletes a row from the table that its address names. -/
def deleteRow (row : Row) : Outcome Unit :=
  match row.address with
  | none => (.error .missingAddress, plain)
  | some place =>
    match plain.catalog.table place.page.table with
    | .error error => (.error error, plain)
    | .ok table =>
      if place.page.table ≠ table.id then (.error (.rowNotOnPage place.page), plain)
      else
        match plain.getPage tid place.page .readWrite with
        | (.error error, after) => (.error error, after)
        | (.ok page, after) =>
          match page.delete row with
          | .error error => (.error error, after)
          | .ok fewer => (.ok (), after.put (fewer.withOwner (some tid)).normal)

/-- The rows of `count` pages from page `number` on, up to an error, which comes last. -/
def scanPages (table : Table) :
    (count number : Nat) → PlainStore → List (Except StoreError Row) × PlainStore
  | 0, _, plain => ([], plain)
  | count + 1, number, plain =>
    match plain.getPage tid ⟨table.id, UInt32.ofNat number⟩ .readOnly with
    | (.error error, after) => ([.error error], after)
    | (.ok page, after) =>
      (page.rows.map .ok ++ (scanPages table count (number + 1) after).1,
        (scanPages table count (number + 1) after).2)

/-! ## Transactions -/

/-- Flushes a page if it is changed. -/
def flushPage : Outcome Unit :=
  match plain.changed? address with
  | none => (.ok (), plain)
  | some page =>
    match page.owner with
    | none => (.ok (), plain)
    | some owner =>
      match page.beforeImage with
      | .error error => (.error error, plain)
      | .ok before =>
        let logged := plain.logged owner (.update page.address before.bytes page.bytes)
        match logged.catalog.write logged.armed logged.disk page with
        | .error error => (.error error, logged)
        | .ok disk => (.ok (), { logged with disk := disk }.drop page.address)

/-- Forgets the changes of a page, if the file has the page. -/
def restorePage : Outcome Unit :=
  match plain.changed? address with
  | none => (.ok (), plain)
  | some _ =>
    match plain.catalog.read plain.disk address with
    | .error error => (.error error, plain)
    | .ok _ => (.ok (), plain.drop address)

/-- Works on pages one after the other, up to an error. -/
def each (work : PlainStore → PageAddress → Outcome Unit) :
    List PageAddress → PlainStore → Outcome Unit
  | [], plain => (.ok (), plain)
  | address :: rest, plain =>
    match work plain address with
    | (.error error, after) => (.error error, after)
    | (.ok (), after) => each work rest after

/-- The pages that `tid` changed, in the order of their addresses. -/
def dirtiedBy : List PageAddress :=
  inOrder PageAddress.precedes ((plain.changed.filter (·.owner = some tid)).map (·.address))

/-- All changed pages, in the order of their addresses. -/
def dirtied : List PageAddress :=
  inOrder PageAddress.precedes (plain.changed.map (·.address))

/-- Flushes or restores the pages that `tid` changed, and gives up its locks. -/
def complete (commit : Bool) : Outcome Unit :=
  match each (if commit then flushPage else restorePage) (plain.dirtiedBy tid) plain with
  | (.error error, after) => (.error error, after)
  | (.ok (), after) => (.ok (), after.withLocks (after.locks.releaseAll tid))

/-- Ends a transaction one way or the other, and logs the outcome. -/
def finish (commit : Bool) : Outcome Unit :=
  match plain.complete tid commit with
  | (.error error, after) => (.error error, after)
  | (.ok (), after) => (.ok (), after.logged tid (Store.outcome commit))

/-- Ends a transaction, and abandons it if that fails. -/
def endWith (commit : Bool) : Outcome Unit :=
  match plain.finish tid commit with
  | (.error error, after) => (.error error, (after.finish tid false).2)
  | (.ok (), after) => (.ok (), after)

/-- Ends a transaction with its pages in this order, and abandons it if that fails. -/
def endIn (order : List PageAddress) (commit : Bool) : Outcome Unit :=
  match each (if commit then flushPage else restorePage) order plain with
  | (.error error, after) => (.error error, (after.finish tid false).2)
  | (.ok (), after) =>
    (.ok (), (after.withLocks (after.locks.releaseAll tid)).logged tid (Store.outcome commit))

theorem endWith_eq_endIn (commit : Bool) :
    plain.endWith tid commit = plain.endIn tid (plain.dirtiedBy tid) commit := by
  simp only [endWith, finish, complete, endIn]
  rcases each (if commit then flushPage else restorePage) (plain.dirtiedBy tid) plain
    with ⟨result, after⟩
  cases result with
  | error error => rfl
  | ok _ => rfl

variable {plain} in
/-- A flush makes no page changed. -/
theorem mem_of_mem_flushPage {page : Page}
    (hpage : page ∈ (plain.flushPage address).2.changed) : page ∈ plain.changed := by
  revert hpage
  unfold flushPage
  cases plain.changed? address with
  | none => exact id
  | some found =>
      cases howner : found.owner with
      | none =>
          simp only [howner]
          exact id
      | some owner =>
          simp only [howner]
          cases found.beforeImage with
          | error error => exact id
          | ok before =>
              simp only
              split
              · exact id
              · intro hpage
                exact (List.mem_filter.mp hpage).1

variable {plain} in
/-- Pages that are not changed are passed over. -/
theorem each_flushPage_filter (keep : PageAddress → Bool)
    (hkeep : ∀ page ∈ plain.changed, keep page.address = true) (addresses : List PageAddress) :
    each flushPage (addresses.filter keep) plain = each flushPage addresses plain := by
  induction addresses generalizing plain with
  | nil => rfl
  | cons address addresses ih =>
      cases hkept : keep address with
      | true =>
          have hfirst : ∀ page ∈ (plain.flushPage address).2.changed, keep page.address = true :=
            fun page hpage => hkeep page (mem_of_mem_flushPage address hpage)
          rw [List.filter_cons_of_pos hkept]
          unfold each
          revert hfirst
          rcases plain.flushPage address with ⟨result, after⟩
          intro hfirst
          cases result with
          | error error => rfl
          | ok _ => exact ih hfirst
      | false =>
          have hnone : plain.changed? address = none := by
            apply List.find?_eq_none.mpr
            intro page hpage heq
            have hpos := hkeep page hpage
            rw [of_decide_eq_true heq, hkept] at hpos
            exact absurd hpos (by simp)
          rw [List.filter_cons_of_neg (by simp [hkept])]
          simp only [each, flushPage, hnone]
          exact ih hkeep

/-! ## Steps -/

/-- The outcome with the answer for the caller. -/
def Outcome.answering {α : Type} (outcome : Outcome α) (f : α → Answer) : Outcome Answer :=
  (outcome.1.map f, outcome.2)

/-- Performs one operation; the catalog stays as it is. -/
def step (plain : PlainStore) : Operation → Outcome Answer
  | .begin =>
    (.ok (.transaction plain.nextTransaction),
      { plain with nextTransaction := plain.nextTransaction + 1 })
  | .getPage tid address access _ =>
    Outcome.answering (plain.getPage tid address access) .page
  | .insert tid table row => Outcome.answering (plain.insertRow tid table row) .row
  | .delete tid row => Outcome.answering (plain.deleteRow tid row) fun _ => .done
  | .scan tid id =>
    match plain.catalog.table id with
    | .error error => (.error error, plain)
    | .ok table =>
      let count := table.pageCount (plain.disk.content table.location)
      let pages := scanPages tid table count.toNat 0 plain
      (.ok (.found (pages.1.map (·.map Row.entry))), pages.2)
  | .commit tid => Outcome.answering (plain.endWith tid true) fun _ => .done
  | .abort tid => Outcome.answering (plain.endWith tid false) fun _ => .done
  | .abandon tid => (.ok .done, (plain.finish tid false).2)
  | .complete tid commit => Outcome.answering (plain.complete tid commit) fun _ => .done
  | .release tid address =>
    (.ok (.released (plain.locks.holds address tid)),
      plain.withLocks (plain.locks.release address tid))
  | .discard address => (.ok .done, plain.drop address)
  | .flushPage address => Outcome.answering (plain.flushPage address) fun _ => .done
  | .flushPagesOf tid =>
    Outcome.answering (each flushPage (plain.dirtiedBy tid) plain) fun _ => .done
  | .flushAll => Outcome.answering (each flushPage plain.dirtied plain) fun _ => .done
  | .enable site => (.ok .done, { plain with armed := plain.armed.enable site })
  | .disable site => (.ok .done, { plain with armed := plain.armed.disable site })
  | .disarm => (.ok .done, { plain with armed := plain.armed.clear })
  | .evict _ => (.ok .done, plain)
  | .openTable _ _ _ _ _ => (.ok .done, plain)
  | .loadSchema _ => (.ok .done, plain)
  | .clearCatalog => (.ok .done, plain)

end PlainStore

end HeapStore
