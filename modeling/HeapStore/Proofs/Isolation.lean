import HeapStore.Proofs.Committed

/-!
# Transactions are isolated

A transaction that gets a page, by itself or in a scan, sees the rows that are in the file with its
own changes, and no change of another transaction (`Accounted.shown`).  As long as it has not ended
it keeps its lock, so that no other transaction can commit a change to the page
(`Accounted.follow_held`): a page that is read twice differs by the reader's own changes in between.
A cursor gives the rows of the pages that it comes to, one after the other
(`Accounted.proceeds`).  `reads_isolated` puts this together for all runs of transactions.
-/

namespace HeapStore

/-- The transaction ends with the operation, whether it succeeds or not. -/
def Operation.ends (tid : TransactionId) : Operation → Bool
  | .commit who => who = tid
  | .abort who => who = tid
  | .abandon who => who = tid
  | _ => false

theorem Event.ends_of {tid : TransactionId} {operation : Operation}
    (hgoes : operation.ends tid = false) (answer : Except StoreError Answer) :
    Event.ends tid (Event.of operation answer) = false := by
  cases operation with
  | insert who id row =>
      cases answer with
      | error error => rfl
      | ok answer =>
          cases answer with
          | row stored =>
              simp only [Event.of]
              split <;> rfl
          | _ => rfl
  | delete who row =>
      cases answer with
      | error error => rfl
      | ok answer =>
          simp only [Event.of]
          split <;> rfl
  | commit who =>
      cases answer with
      | error error => exact hgoes
      | ok answer => exact hgoes
  | abort who => exact hgoes
  | abandon who => exact hgoes
  | _ => rfl

/-! ## Ledgers without an end -/

namespace Ledger

variable {ledger : Ledger} {tid : TransactionId}

theorem pending_note {event : Event} (hgoes : Event.ends tid event = false) :
    (ledger.note event).pending tid = ledger.pending tid ++ (empty.note event).pending tid := by
  cases event with
  | edited who edit =>
      by_cases hwho : tid = who
      · simp [note, withPending, empty, hwho]
      · simp [note, withPending, empty, hwho]
  | committed who =>
      have hwho : tid ≠ who := Ne.symm (of_decide_eq_false hgoes)
      simp [note, withPending, empty, hwho]
  | dropped who =>
      have hwho : tid ≠ who := Ne.symm (of_decide_eq_false hgoes)
      simp [note, withPending, empty, hwho]
  | quiet => simp [note, empty]

/-- While a transaction goes on, its changes come to those that it had before. -/
theorem pending_noteAll (ledger : Ledger) {entries : List (Operation × Except StoreError Answer)}
    (hgoes : ∀ entry ∈ entries, entry.1.ends tid = false) :
    (ledger.noteAll entries).pending tid
      = ledger.pending tid ++ (empty.noteAll entries).pending tid := by
  induction entries generalizing ledger with
  | nil => simp [noteAll, empty]
  | cons entry entries ih =>
      have hrest := fun later hlater => hgoes later (List.mem_cons_of_mem entry hlater)
      have hfirst := Event.ends_of (hgoes entry List.mem_cons_self) entry.2
      show ((ledger.note _).noteAll entries).pending tid
        = _ ++ ((empty.note _).noteAll entries).pending tid
      rw [ih _ hrest, ih (empty.note _) hrest, pending_note hfirst, List.append_assoc]

end Ledger

/-! ## Rows of a page -/

namespace Rows

/-- The rows in the first slots of a page, in their order. -/
def listing (rows : Rows) (page : PageAddress) (count : Nat) :
    List (Option RecordAddress × List Field) :=
  (List.range count).filterMap fun slot =>
    (rows ⟨page, slot⟩).map fun fields => (some ⟨page, slot⟩, fields)

/-- The entries are all rows of the page, in the order of their slots. -/
def Lists (rows : Rows) (page : PageAddress)
    (entries : List (Option RecordAddress × List Field)) : Prop :=
  ∃ count, (∀ slot, count ≤ slot → rows ⟨page, slot⟩ = none) ∧ entries = rows.listing page count

end Rows

/-- What a scan found: for one page after the other entries that it lists, up to an error or to the
last of `count` pages. -/
def FoundInPages (lists : Nat → List (Option RecordAddress × List Field) → Prop) (count : Nat)
    (found : List (Except StoreError (Option RecordAddress × List Field))) : Prop :=
  ∃ (parts : List (List (Option RecordAddress × List Field)))
    (tail : List (Except StoreError (Option RecordAddress × List Field))),
    found = parts.flatten.map .ok ++ tail ∧
      (∀ number part, parts[number]? = some part → lists number part) ∧
      ((tail = [] ∧ parts.length = count) ∨ ∃ error, tail = [.error error])

namespace Page

/-- The rows of the page, by their addresses. -/
def toRows (page : Page) : Rows :=
  fun place => if place.page = page.address then page.fields? place.slot else none

@[simp] theorem toRows_normal (page : Page) : page.normal.toRows = page.toRows := by
  funext place
  simp [toRows]

theorem toRows_of_le {page : Page} {slot : Nat} (hslot : page.slotCount ≤ slot) :
    page.toRows ⟨page.address, slot⟩ = none := by
  have hnone : page.slots[slot]? = none := List.getElem?_eq_none hslot
  simp [toRows, fields?, row?, hnone]

/-- The rows of a sound page are listed slot by slot. -/
theorem lists_rows {page : Page} (hsound : page.Sound) :
    page.toRows.Lists page.address (page.rows.map Row.entry) := by
  refine ⟨page.slotCount, fun slot => toRows_of_le, ?_⟩
  have hslots : page.slots = (List.range page.slotCount).map page.row? := by
    apply List.ext_getElem
    · simp [slotCount]
    · intro slot hslot _
      simp [row?, List.getElem?_eq_getElem hslot]
  simp only [rows, Rows.listing]
  rw [hslots, List.filterMap_map, List.map_filterMap]
  apply List.filterMap_congr
  intro slot _
  simp only [Function.comp_apply, id, toRows, if_true, fields?]
  cases hrow : page.row? slot with
  | none => rfl
  | some row =>
      obtain ⟨hplace, -⟩ := hsound.rows slot row hrow
      simp [Row.entry, hplace]

end Page

namespace PlainStore

variable {plain after : PlainStore} {initial : Rows} {ledger : Ledger} {tid : TransactionId}
  {address : PageAddress} {access : Access} {page : Page}

theorem sound_of_page (hsound : plain.Sound) (hpage : plain.page address = .ok page) :
    page.Sound := by
  cases hchanged : plain.changed? address with
  | some found =>
      rw [page_of_changed hchanged] at hpage
      obtain rfl := Except.ok.inj hpage
      obtain ⟨hmem, -⟩ := hsound.changed?_eq_some_iff.mp hchanged
      exact (hsound.changed found hmem).sound
  | none =>
      simp only [PlainStore.page, hchanged] at hpage
      split at hpage
      · exact absurd hpage (by simp)
      · exact (Catalog.of_filed? (Catalog.filed?_of_read hpage)).sound

/-- A page that a transaction got has the rows that the transaction sees. -/
theorem view_of_got (haccounts : Accounts initial ledger plain.standing)
    (hgot : plain.Got tid address access page after) :
    (plain.standing.view tid).onPage address = page.toRows := by
  obtain ⟨haddress, hfields⟩ := of_page hgot.page
  funext place
  simp only [Rows.onPage, Page.toRows, haddress]
  split
  · rename_i hplace
    have hview : plain.standing.view tid place = plain.standing.present place :=
      haccounts.view_eq_present fun other howned =>
        hgot.owner other (by rw [← hplace]; exact howned)
    rw [hview, hfields, ← hplace]
    rfl
  · rfl

/-- A scan gives the rows that its transaction sees, page by page, up to an error. -/
theorem scanPages_view (haccounts : Accounts initial ledger plain.standing)
    (hguarded : plain.Guarded) (hsound : plain.Sound) (tid : TransactionId) (table : Table)
    (count number : Nat) :
    FoundInPages
      (fun i => ((plain.standing.view tid).onPage ⟨table.id, UInt32.ofNat (number + i)⟩).Lists
        ⟨table.id, UInt32.ofNat (number + i)⟩)
      count ((scanPages tid table count number plain).1.map (·.map Row.entry)) := by
  induction count generalizing plain number with
  | zero => exact ⟨[], [], rfl, by simp, Or.inl ⟨rfl, rfl⟩⟩
  | succ count ih =>
      have hkept := kept_getPage hguarded tid ⟨table.id, UInt32.ofNat number⟩ .readOnly
      obtain ⟨locks, hlocks⟩ :=
        getPage_withLocks tid ⟨table.id, UInt32.ofNat number⟩ .readOnly plain
      unfold scanPages
      cases hget : plain.getPage tid ⟨table.id, UInt32.ofNat number⟩ .readOnly with
      | mk result after =>
          rw [hget] at hkept hlocks
          cases result with
          | error error => exact ⟨[], [.error error], rfl, by simp, Or.inr ⟨error, rfl⟩⟩
          | ok page =>
              have hgot := got_of_getPage hguarded hget
              have hview := view_of_got haccounts hgot
              have hlists := Page.lists_rows (sound_of_page hsound hgot.page)
              rw [(of_page hgot.page).1, ← hview] at hlists
              obtain rfl : after = plain.withLocks locks := hlocks
              have hstill : Accounts initial ledger (plain.withLocks locks).standing := haccounts
              obtain ⟨parts, tail, hrows, hparts, htail⟩ :=
                ih hstill hkept.guarded (sound_withLocks hsound locks) (number + 1)
              refine ⟨page.rows.map Row.entry :: parts, tail, ?_, ?_, ?_⟩
              · simp only [List.map_append, hrows, List.flatten_cons, List.append_assoc]
                congr 1
                simp [Function.comp_def, Except.map]
              · intro i part hpart
                cases i with
                | zero =>
                    obtain rfl := Option.some.inj hpart
                    exact hlists
                | succ i =>
                    have hrest := hparts i part (by simpa using hpart)
                    have hnumber : number + 1 + i = number + (i + 1) := by omega
                    simp only [hnumber] at hrest
                    exact hrest
              · rcases htail with ⟨hnil, hlength⟩ | herror
                · exact Or.inl ⟨hnil, by simp [hlength]⟩
                · exact Or.inr herror

end PlainStore

namespace Store

/-- On the page, the rows in the file become these rows by the edits. -/
def Sees (store : Store) (edits : List Edit) (page : PageAddress) (rows : Rows) : Prop :=
  replay? (store.filedRows.onPage page) (edits.filter (Edit.isOn page)) = some rows

variable {store after : Store} {changed : List Page} {initial : Rows} {ledger : Ledger}
  {tid : TransactionId} {address : PageAddress} {access : Access} {frame : Frame}

/-! ## Reading once -/

theorem Accounted.sees (haccounted : Accounted initial ledger store changed)
    (hsmall : store.catalog.Small store.disk) (tid : TransactionId) (page : PageAddress) :
    store.Sees (ledger.pending tid) page
      (((store.plain changed).standing.view tid).onPage page) := by
  have hpending := replay?_onPage (haccounted.accounts.pending tid) page
  have hfiled : (store.plain changed).standing.filed = store.filedRows := by
    rw [filedRows_eq hsmall]
    rfl
  rw [hfiled] at hpending
  exact hpending

/-- To get a page changes nothing but locks, also if it fails; a page that a transaction gets is the
one it gets from the plain store. -/
theorem Accounted.kept_getPage (haccounted : Accounted initial ledger store changed)
    (hsmall : store.catalog.Small store.disk) {result : Except StoreError Frame}
    (hread : (getPage tid address access []).perform store = (result, after)) :
    ∃ still, Accounted initial ledger after still ∧
      (store.plain changed).Kept (after.plain still) ∧
      ∀ frame, result = .ok frame → frame ∈ after.pool.resident ∧
        (store.plain changed).Got tid address access frame.page.normal (after.plain still) := by
  obtain ⟨hcoherent, hguarded, haccounts⟩ := haccounted
  have hagree := getPage_agree hcoherent tid address access (Or.inl hsmall)
  have hkept := PlainStore.kept_getPage hguarded tid address access
  rw [hread] at hagree
  cases hget : (store.plain changed).getPage tid address access with
  | mk outcome last =>
      rw [hget] at hagree hkept
      have hstill : Accounts initial ledger last.standing := hkept.standing.symm ▸ haccounts
      cases hagree with
      | @ok frame page _ still hafter hshows =>
          obtain ⟨hframe, rfl⟩ := hshows
          refine ⟨still, ⟨hafter, hkept.guarded, hstill⟩, hkept, ?_⟩
          intro found hfound
          obtain rfl := Except.ok.inj hfound
          exact ⟨hframe, PlainStore.got_of_getPage hguarded hget⟩
      | error hafter =>
          exact ⟨_, ⟨hafter, hkept.guarded, hstill⟩, hkept, fun _ hfound => absurd hfound (by simp)⟩

/-- A page that a transaction gets from the store is the one it gets from the plain store. -/
theorem Accounted.got (haccounted : Accounted initial ledger store changed)
    (hsmall : store.catalog.Small store.disk)
    (hread : (getPage tid address access []).perform store = (.ok frame, after)) :
    ∃ still, Accounted initial ledger after still ∧ frame ∈ after.pool.resident ∧
      (store.plain changed).Got tid address access frame.page.normal (after.plain still) := by
  obtain ⟨still, hafter, -, hgot⟩ := haccounted.kept_getPage hsmall hread
  exact ⟨still, hafter, hgot frame rfl⟩

/-- A transaction sees the rows in the file with its own changes, and nothing else. -/
theorem Accounted.shown (haccounted : Accounted initial ledger store changed)
    (hsmall : store.catalog.Small store.disk)
    (hread : (getPage tid address access []).perform store = (.ok frame, after)) :
    store.Sees (ledger.pending tid) address frame.page.toRows := by
  obtain ⟨still, -, -, hgot⟩ := haccounted.got hsmall hread
  have hsees := haccounted.sees hsmall tid address
  rw [PlainStore.view_of_got haccounted.accounts hgot, Page.toRows_normal] at hsees
  exact hsees

/-- The rows of a page come in the order of their slots. -/
theorem Accounted.listed (haccounted : Accounted initial ledger store changed)
    (hsmall : store.catalog.Small store.disk)
    (hread : (getPage tid address access []).perform store = (.ok frame, after)) :
    frame.page.toRows.Lists address (frame.page.rows.map Row.entry) := by
  obtain ⟨still, hafter, hframe, hgot⟩ := haccounted.got hsmall hread
  have hsound := Page.sound_of_normal (hafter.coherent.sound_normal hframe)
  have haddress : frame.page.address = address := (PlainStore.of_page hgot.page).1
  rw [← haddress]
  exact Page.lists_rows hsound

/-- A scan gives the rows that its transaction sees, page by page, up to an error. -/
theorem Accounted.scanned (haccounted : Accounted initial ledger store changed)
    (hsmall : store.catalog.Small store.disk) {id : TableId}
    {found : List (Except StoreError (Option RecordAddress × List Field))}
    (hscan : store.answer (.scan tid id) = .ok (.found found)) :
    ∃ table, store.catalog.table id = .ok table ∧
      FoundInPages
        (fun number part => ∃ seen,
          store.Sees (ledger.pending tid) ⟨id, UInt32.ofNat number⟩ seen ∧
            seen.Lists ⟨id, UInt32.ofNat number⟩ part)
        (store.pageCount table).toNat found := by
  obtain ⟨hanswer, -⟩ := scan_agree haccounted.coherent hsmall tid id
  rw [hanswer] at hscan
  simp only [PlainStore.step, plain_catalog] at hscan
  cases htable : store.catalog.table id with
  | error error => simp [htable] at hscan
  | ok table =>
      simp only [htable, Except.ok.injEq, Answer.found.injEq] at hscan
      obtain ⟨rfl, -⟩ := Catalog.of_table htable
      obtain ⟨parts, tail, hrows, hparts, htail⟩ := PlainStore.scanPages_view
        haccounted.accounts haccounted.guarded haccounted.coherent.sound tid table
        (store.pageCount table).toNat 0
      refine ⟨table, rfl, parts, tail, ?_, ?_, htail⟩
      · rw [← hrows, ← hscan]
        rfl
      · intro number part hpart
        have hlists := hparts number part hpart
        simp only [Nat.zero_add] at hlists
        exact ⟨_, haccounted.sees hsmall tid _, hlists⟩

/-! ## Reading again -/

/-- A turn that does not end a transaction with a lock on a page leaves it the lock, and the rows
of the page in the file. -/
theorem Accounted.turn_held (haccounted : Accounted initial ledger store changed)
    (hheld : store.pool.locks.holds address tid = true)
    (hsmall : store.catalog.Small store.disk) {turn : Turn} (hfits : turn.Fits store)
    (htransactional : turn.operation.Transactional) (hgoes : turn.operation.ends tid = false) :
    ∃ still, Accounted initial (ledger.note (Event.of turn.operation (store.turn turn).1))
        (store.turn turn).2 still ∧
      (store.turn turn).2.pool.locks.holds address tid = true ∧
      ((store.turn turn).2.catalog.rows (store.turn turn).2.disk).onPage address
        = (store.catalog.rows store.disk).onPage address := by
  obtain ⟨still, hafter, hconducts, -⟩ := haccounted.turn hsmall hfits htransactional
  have hends := Event.ends_of hgoes (store.turn turn).1
  refine ⟨still, hafter, hconducts.holds address tid hends hheld, ?_⟩
  have hhappens := hconducts.happens
  have hfiled : ∀ place, place.page = address →
      ((store.turn turn).2.plain still).standing.filed place
        = (store.plain changed).standing.filed place := by
    revert hends hhappens
    generalize ((store.turn turn).2.plain still).standing = standing
    generalize Event.of turn.operation (store.turn turn).1 = event
    intro hends hhappens place hplace
    cases hhappens with
    | quiet => rfl
    | edited howner hfits => rfl
    | dropped => rfl
    | @committed _ who =>
        -- who commits a change to the page has locked it exclusively
        have hother : (store.plain changed).standing.owns who place.page = false := by
          rw [Standing.owns, decide_eq_false_iff_not, hplace]
          intro howned
          have hexclusive := haccounted.guarded.owned address who howned
          have hsame : tid = who := LockTable.alone hexclusive hheld
          simp [Event.ends, hsame] at hends
        simp [Standing.settled, hother]
  funext place
  unfold Rows.onPage
  split
  · rename_i hplace
    exact hfiled place hplace
  · rfl

theorem Accounted.follow_held (turns : List Turn)
    (haccounted : Accounted initial ledger store changed)
    (hheld : store.pool.locks.holds address tid = true) (hadmits : store.Admits turns)
    (htransactional : ∀ turn ∈ turns, turn.operation.Transactional)
    (hgoes : ∀ turn ∈ turns, turn.operation.ends tid = false) :
    ∃ still, Accounted initial (ledger.noteAll (store.seen turns)) (store.follow turns) still ∧
      ((store.follow turns).catalog.rows (store.follow turns).disk).onPage address
        = (store.catalog.rows store.disk).onPage address := by
  induction turns generalizing store changed ledger with
  | nil => exact ⟨changed, haccounted, rfl⟩
  | cons turn turns ih =>
      obtain ⟨hsmall, hfits, hrest⟩ := hadmits
      obtain ⟨next, hturn, hstill, hrows⟩ := haccounted.turn_held hheld hsmall hfits
        (htransactional turn List.mem_cons_self) (hgoes turn List.mem_cons_self)
      obtain ⟨last, hrun, hsame⟩ := ih hturn hstill hrest
        (fun later hlater => htransactional later (List.mem_cons_of_mem turn hlater))
        (fun later hlater => hgoes later (List.mem_cons_of_mem turn hlater))
      exact ⟨last, hrun, hsame.trans hrows⟩

/-- To get a page changes no file. -/
theorem filedRows_of_getPage
    (hread : (getPage tid address access []).perform store = (.ok frame, after)) :
    after.filedRows = store.filedRows := by
  obtain ⟨pool, hpool⟩ := getPage_withPool tid address access [] store
  rw [hread] at hpool
  rw [show after = store.withPool pool from hpool]
  rfl

/-- A page that is read twice differs by the changes that the reader made in between. -/
theorem Accounted.shown_again (haccounted : Accounted initial ledger store changed)
    {between : List Turn} {again : Access} {later : Frame} {last : Store}
    (hread : (getPage tid address access []).perform store = (.ok frame, after))
    (hsmall : store.catalog.Small store.disk) (hadmits : after.Admits between)
    (htransactional : ∀ turn ∈ between, turn.operation.Transactional)
    (hgoes : ∀ turn ∈ between, turn.operation.ends tid = false)
    (hreread : (getPage tid address again []).perform (after.follow between) = (.ok later, last)) :
    replay? frame.page.toRows (((after.ledger between).pending tid).filter (Edit.isOn address))
      = some later.page.toRows := by
  have hfirst := haccounted.shown hsmall hread
  obtain ⟨still, hafter, -, hgot⟩ := haccounted.got hsmall hread
  obtain ⟨next, hrun, hrows⟩ := hafter.follow_held between hgot.held hadmits htransactional hgoes
  have hsecond := hrun.shown hadmits.last hreread
  have hpending : (ledger.noteAll (after.seen between)).pending tid
      = ledger.pending tid ++ (after.ledger between).pending tid := by
    apply ledger.pending_noteAll
    intro entry hentry
    obtain ⟨turn, hturn, hoperation⟩ := mem_seen hentry
    rw [hoperation]
    exact hgoes turn hturn
  rw [Sees] at hfirst hsecond
  rw [filedRows_eq hadmits.last, hrows, ← filedRows_eq hadmits.head, filedRows_of_getPage hread,
    hpending, List.filter_append, replay?_append, hfirst, Option.bind_some] at hsecond
  exact hsecond

/-! ## Cursors -/

/-- The rows of a page that a cursor comes to are those that its transaction sees. -/
theorem Accounted.pageRows (haccounted : Accounted initial ledger store changed)
    (hsmall : store.catalog.Small store.disk) {cursor : Cursor} {number : Nat} {rows : List Row}
    (hrows : (cursor.pageRows number).perform store = (.ok rows, after)) :
    (∃ still, Accounted initial ledger after still) ∧
      ∃ seen, store.Sees (ledger.pending cursor.transaction)
          ⟨cursor.table.id, UInt32.ofNat number⟩ seen ∧
        seen.Lists ⟨cursor.table.id, UInt32.ofNat number⟩ (rows.map Row.entry) := by
  rw [perform_pageRows] at hrows
  revert hrows
  cases hread : (getPage cursor.transaction ⟨cursor.table.id, UInt32.ofNat number⟩
    .readOnly []).perform store with
  | mk result last =>
      intro hrows
      cases result with
      | error error => exact absurd (Prod.mk.inj hrows).1 (by simp [Except.map])
      | ok frame =>
          obtain ⟨hframe, rfl⟩ := Prod.mk.inj hrows
          obtain rfl := Except.ok.inj hframe
          obtain ⟨still, hafter, -⟩ := haccounted.got hsmall hread
          exact ⟨⟨still, hafter⟩, _, haccounted.shown hsmall hread, haccounted.listed hsmall hread⟩

/-- What a call of a cursor does, where the transaction has these changes: it reads pages behind
those that it has read, and gives the first row of those that it had left and of those that its
transaction sees on these pages, and keeps the others. -/
structure Proceeds (store : Store) (edits : List Edit) (cursor : Cursor)
    (parts : List (List (Option RecordAddress × List Field)))
    (found : Option (Except StoreError Row)) (final : Cursor) (after : Store) : Prop where
  /-- Nothing but reads happens to the store. -/
  reads : ∃ count, after = store.follow ((List.range' cursor.nextPage count).map cursor.read)
  position : final.nextPage = cursor.nextPage + parts.length
  pages : ∀ i part, parts[i]? = some part → ∃ seen,
    store.Sees edits ⟨cursor.table.id, UInt32.ofNat (cursor.nextPage + i)⟩ seen ∧
      seen.Lists ⟨cursor.table.id, UInt32.ofNat (cursor.nextPage + i)⟩ part
  rows : ((found.bind Except.toOption).toList ++ final.pending).map Row.entry
    = cursor.pending.map Row.entry ++ parts.flatten

namespace Proceeds

variable {edits : List Edit} {cursor final : Cursor} {found : Option (Except StoreError Row)}
  {parts : List (List (Option RecordAddress × List Field))} {mid : Store} {rows : List Row}

/-- A cursor that reads no page. -/
theorem still (hposition : final.nextPage = cursor.nextPage)
    (hrows : (found.bind Except.toOption).toList ++ final.pending = cursor.pending) :
    store.Proceeds edits cursor [] found final store where
  reads := ⟨0, rfl⟩
  position := hposition
  pages i part hpart := absurd hpart (by simp)
  rows := by rw [hrows, List.flatten_nil, List.append_nil]

/-- A cursor that reads one page before it goes on. -/
theorem page (hpending : cursor.pending = [])
    (hrows : (cursor.pageRows cursor.nextPage).perform store = (.ok rows, mid))
    (hseen : ∃ seen, store.Sees edits ⟨cursor.table.id, UInt32.ofNat cursor.nextPage⟩ seen ∧
      seen.Lists ⟨cursor.table.id, UInt32.ofNat cursor.nextPage⟩ (rows.map Row.entry))
    (hrest : mid.Proceeds edits { cursor with nextPage := cursor.nextPage + 1, pending := rows }
      parts found final after) :
    store.Proceeds edits cursor (rows.map Row.entry :: parts) found final after where
  reads := by
    obtain ⟨count, hafter⟩ := hrest.reads
    have hread := cursor.turn_read cursor.nextPage store
    rw [hrows] at hread
    refine ⟨count + 1, ?_⟩
    rw [hafter, List.range'_succ, List.map_cons]
    show _ = (store.turn (cursor.read cursor.nextPage)).2.follow _
    rw [hread]
    rfl
  position := by
    have hposition := hrest.position
    simp only [List.length_cons] at hposition ⊢
    omega
  pages i part hpart := by
    cases i with
    | zero =>
        obtain rfl := Option.some.inj hpart
        exact hseen
    | succ i =>
        -- the read before changed no file
        have hfile : mid.filedRows = store.filedRows := by
          obtain ⟨pool, hpool⟩ := cursor.pageRows_withPool cursor.nextPage store
          rw [hrows] at hpool
          rw [show mid = store.withPool pool from hpool]
          rfl
        obtain ⟨seen, hsees, hlists⟩ := hrest.pages i part hpart
        have hnumber : cursor.nextPage + 1 + i = cursor.nextPage + (i + 1) := by omega
        simp only [Sees, hfile, hnumber] at hsees hlists
        exact ⟨seen, hsees, hlists⟩
  rows := by
    rw [hrest.rows, hpending]
    rfl

end Proceeds

theorem Accounted.proceeds (haccounted : Accounted initial ledger store changed)
    (hsmall : store.catalog.Small store.disk) (cursor : Cursor) :
    ∃ parts, store.Proceeds (ledger.pending cursor.transaction) cursor parts
      (cursor.next store).1.1 (cursor.next store).1.2 (cursor.next store).2 := by
  fun_induction Cursor.next cursor store generalizing changed with
  | case1 cursor store hopen row rest hpending => exact ⟨[], .still rfl hpending.symm⟩
  | case2 cursor store hopen hpending hmore rows mid hrows ih =>
      obtain ⟨⟨still, hmid⟩, hseen⟩ := haccounted.pageRows hsmall hrows
      obtain ⟨pool, hpool⟩ := cursor.pageRows_withPool cursor.nextPage store
      rw [hrows] at hpool
      obtain rfl : mid = store.withPool pool := hpool
      obtain ⟨parts, hrest⟩ := ih hmid hsmall
      exact ⟨_, .page hpending hrows hseen hrest⟩
  | case3 cursor store hopen hpending hmore error mid hrows =>
      have hread := cursor.turn_read cursor.nextPage store
      rw [hrows] at hread
      exact ⟨[], ⟨1, hread.symm⟩, rfl, fun _ _ hpart => absurd hpart (by simp),
        by simp [Except.toOption, Cursor.close, hpending]⟩
  | case4 cursor store hopen hpending hend => exact ⟨[], .still rfl hpending.symm⟩
  | case5 cursor store hclosed => exact ⟨[], .still rfl rfl⟩

/-- What transactions with these pending changes get to see of a store. -/
structure Isolated (store : Store) (pending : TransactionId → List Edit) : Prop where
  /-- A page has the rows in the file with the changes of its reader. -/
  page : ∀ {tid address access frame after},
    (getPage tid address access []).perform store = (.ok frame, after) →
      store.Sees (pending tid) address frame.page.toRows
  /-- Read again before the reader has ended, it differs by what the reader did in between. -/
  again : ∀ {tid address access frame after between access' later last},
    (getPage tid address access []).perform store = (.ok frame, after) →
    after.Admits between → (∀ turn ∈ between, turn.operation.Transactional) →
    (∀ turn ∈ between, turn.operation.ends tid = false) →
    (getPage tid address access' []).perform (after.follow between) = (.ok later, last) →
      replay? frame.page.toRows (((after.ledger between).pending tid).filter (Edit.isOn address))
        = some later.page.toRows
  /-- A cursor that comes to a page takes all these rows, in their order. -/
  cursor : ∀ {cursor number rows after},
    (Cursor.pageRows cursor number).perform store = (.ok rows, after) →
      ∃ seen, store.Sees (pending cursor.transaction) ⟨cursor.table.id, UInt32.ofNat number⟩ seen ∧
        seen.Lists ⟨cursor.table.id, UInt32.ofNat number⟩ (rows.map Row.entry)
  /-- A cursor that goes on gives the rows that it has taken, one after the other, and reads the
  next pages once it has none left; it does nothing else to the store. -/
  next : ∀ cursor, ∃ parts, store.Proceeds (pending cursor.transaction) cursor parts
    (cursor.next store).1.1 (cursor.next store).1.2 (cursor.next store).2
  /-- A scan at once gives these rows for one page after the other, up to an error. -/
  scan : ∀ {tid id found}, store.answer (.scan tid id) = .ok (.found found) →
    ∃ table, store.catalog.table id = .ok table ∧
      FoundInPages
        (fun number part => ∃ seen, store.Sees (pending tid) ⟨id, UInt32.ofNat number⟩ seen ∧
          seen.Lists ⟨id, UInt32.ofNat number⟩ part)
        (store.pageCount table).toNat found

/-- After every run of transactions, in which commits flush their pages in any order, each of them
sees the committed rows in the files with its own changes, and no change of another one. -/
theorem reads_isolated (hopened : Opened store)
    (hapart : store.catalog.Apart store.log.location) (turns : List Turn)
    (htransactional : ∀ turn ∈ turns, turn.operation.Transactional)
    (hadmits : store.Admits turns) :
    (store.follow turns).Isolated (store.ledger turns).pending := by
  have hfresh := hopened.fresh.accounted hapart
  obtain ⟨still, haccounted⟩ := hfresh.follow turns hadmits htransactional
  constructor
  case page => exact haccounted.shown hadmits.last
  case again =>
      intro tid address access frame after between access' later last hread hstays hbetween hgoes
        hreread
      exact haccounted.shown_again hread hadmits.last hstays hbetween hgoes hreread
  case cursor =>
      intro cursor number rows after hrows
      exact (haccounted.pageRows hadmits.last hrows).2
  case next => exact haccounted.proceeds hadmits.last
  case scan => exact haccounted.scanned hadmits.last

/-- A transaction reads a page with committed rows after it put a row there itself. -/
theorem reads_isolated_sample :
    let turns := [.step .begin, .step (.insert 1 sampleTable (sampleRow 7)),
      .step (.insert 1 sampleTable (sampleRow 8)), .step (.insert 1 sampleTable (sampleRow 9)),
      .step (.insert 1 sampleTable (sampleRow 10)),
      .commit 1 [⟨sampleTable, 1⟩, ⟨sampleTable, 0⟩], .step .begin,
      .step (.insert 2 sampleTable (sampleRow 11)), .step (.evict [])]
    ((getPage 2 ⟨sampleTable, 1⟩ .readOnly []).perform (sample.follow turns)).1.isOk = true ∧
      (sample.follow turns).Isolated (sample.ledger turns).pending :=
  ⟨by decide +kernel, reads_isolated opened_sample (by decide +kernel) _
    (by simp [Turn.operation, Operation.Transactional, valid_sampleRow]) (by decide +kernel)⟩

end Store

end HeapStore
