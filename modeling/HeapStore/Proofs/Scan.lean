import HeapStore.Proofs.Abort
import HeapStore.Proofs.Repeat

/-!
# Scans are complete

A cursor is asked for rows, closed and rewound while any transactions work on the database.  If a
scan meets no error and comes to its end, it has given the rows of all pages that the table then
has, page by page and slot by slot, each page as it was in the store in which the scan came to it
(`scan_complete`).  After its end, after an error or when it is closed a cursor gives nothing until
it is rewound, and a cursor that is rewound is a new one.
-/

namespace HeapStore

/-! ## Moves of a cursor -/

/-- A cursor is asked for a row, closed or rewound, or a turn of some transaction. -/
inductive Move where
  | moment (moment : Moment)
  | close
  | rewind

namespace Move

/-- The operation that a turn performs leaves the catalog alone. -/
def Fixed : Move → Prop
  | .moment (.turn turn) => turn.operation.Fixed
  | _ => True

/-- A turn fits the store. -/
def Fits (store : Store) : Move → Prop
  | .moment (.turn turn) => turn.Fits store
  | _ => True

instance (store : Store) (move : Move) : Decidable (move.Fits store) :=
  match move with
  | .moment (.turn turn) => inferInstanceAs (Decidable (turn.Fits store))
  | .moment .row => inferInstanceAs (Decidable True)
  | .close => inferInstanceAs (Decidable True)
  | .rewind => inferInstanceAs (Decidable True)

end Move

namespace Cursor

/-- What one move gives, with the cursor and the store after it. -/
def move (cursor : Cursor) (store : Store) :
    Move → (List (Except StoreError Row) × Cursor) × Store
  | .moment moment => cursor.through store [moment]
  | .close => (([], cursor.close), store)
  | .rewind => (([], cursor.rewind), store)

/-- What some moves give, with the cursor and the store after them. -/
def play (cursor : Cursor) (store : Store) :
    List Move → (List (Except StoreError Row) × Cursor) × Store
  | [] => (([], cursor), store)
  | move :: rest =>
    let first := cursor.move store move
    let later := first.1.2.play first.2 rest
    ((first.1.1 ++ later.1.1, later.1.2), later.2)

/-- The turns fit the stores that they come to, and the tables stay small there. -/
def Permits (cursor : Cursor) (store : Store) : List Move → Prop
  | [] => store.catalog.Small store.disk
  | move :: rest =>
    store.catalog.Small store.disk ∧ move.Fits store ∧
      (cursor.move store move).1.2.Permits (cursor.move store move).2 rest

instance decidablePermits (cursor : Cursor) (store : Store) (moves : List Move) :
    Decidable (cursor.Permits store moves) :=
  match moves with
  | [] => inferInstanceAs (Decidable (store.catalog.Small store.disk))
  | move :: rest =>
    let _ := decidablePermits (cursor.move store move).1.2 (cursor.move store move).2 rest
    inferInstanceAs (Decidable (_ ∧ _ ∧ _))

/-- The cursor is closed by the move, or is asked for a row and gives none: it is at its end, or
there is an error. -/
def StoppedBy (cursor : Cursor) (store : Store) (move : Move) : Prop :=
  move = .close ∨
    (move = .moment .row ∧ ∀ row, Except.ok row ∉ (cursor.move store move).1.1)

/-- The stores in which a scan comes to its pages, one for each page. -/
def arrivals (cursor : Cursor) (store : Store) : List Moment → List Store
  | [] => []
  | .turn turn :: rest => cursor.arrivals (store.turn turn).2 rest
  | .row :: rest =>
    List.replicate ((cursor.next store).1.2.nextPage - cursor.nextPage) store
      ++ (cursor.next store).1.2.arrivals (cursor.next store).2 rest

variable {cursor : Cursor} {store : Store}

theorem Permits.head {moves : List Move} (hpermits : cursor.Permits store moves) :
    store.catalog.Small store.disk := by
  cases moves with
  | nil => exact hpermits
  | cons move moves => exact hpermits.1

/-! ## Closed cursors and rewound ones -/

/-- A cursor stays with its transaction and its table. -/
theorem rewind_move (cursor : Cursor) (store : Store) (move : Move) :
    (cursor.move store move).1.2.rewind = cursor.rewind := by
  cases move with
  | moment moment =>
      cases moment with
      | turn turn => rfl
      | row =>
          obtain ⟨hwho, hwhere⟩ := next_same cursor store
          simp only [Cursor.move, through, rewind, hwho, hwhere]
  | close => rfl
  | rewind => rfl

/-- After any moves a cursor that is rewound is as it was at the start. -/
theorem rewind_play (cursor : Cursor) (store : Store) (moves : List Move) :
    (cursor.play store moves).1.2.rewind = cursor.rewind := by
  induction moves generalizing cursor store with
  | nil => rfl
  | cons move moves ih => exact (ih _ _).trans (rewind_move cursor store move)

/-- A cursor that gives no row is closed. -/
theorem closed_of_next (hnone : ∀ row, (cursor.next store).1.1 ≠ some (.ok row)) :
    (cursor.next store).1.2.isOpen = false := by
  revert hnone
  fun_induction Cursor.next cursor store with
  | case1 cursor store hopen row rest hpending => exact fun hnone => absurd rfl (hnone row)
  | case2 cursor store hopen hpending hmore rows after hrows ih => exact ih
  | case3 cursor store hopen hpending hmore error after hrows => exact fun _ => rfl
  | case4 cursor store hopen hpending hend => exact fun _ => rfl
  | case5 cursor store hclosed => exact fun _ => by simpa using hclosed

theorem closed_of_stoppedBy {move : Move} (hstopped : cursor.StoppedBy store move) :
    (cursor.move store move).1.2.isOpen = false := by
  rcases hstopped with rfl | ⟨rfl, hnone⟩
  · rfl
  · apply closed_of_next
    intro row hrow
    apply hnone row
    simp [Cursor.move, through, hrow]

/-- A closed cursor gives nothing until it is rewound. -/
theorem play_closed (hclosed : cursor.isOpen = false) (moves : List Move)
    (hrewind : .rewind ∉ moves) : (cursor.play store moves).1.1 = [] := by
  induction moves generalizing cursor store with
  | nil => rfl
  | cons move moves ih =>
      have hrest : .rewind ∉ moves := fun hmem => hrewind (List.mem_cons_of_mem move hmem)
      cases move with
      | moment moment =>
          cases moment with
          | turn turn => exact ih hclosed hrest
          | row =>
              have hnext : cursor.next store = ((none, cursor), store) :=
                next_of_closed (by simp [hclosed])
              simp only [play, Cursor.move, through, hnext]
              exact ih hclosed hrest
      | close => exact ih rfl hrest
      | rewind => exact absurd List.mem_cons_self hrewind

end Cursor

/-! ## Rows in order -/

/-- Both rows have addresses, and the first one comes before the other. -/
def Before (entry other : Option RecordAddress × List Field) : Prop :=
  ∃ place next, entry.1 = some place ∧ other.1 = some next ∧ place.compare next = .lt

namespace Rows

variable {rows : Rows} {page : PageAddress} {entries : List (Option RecordAddress × List Field)}

/-- Only the rows on the page matter for its list. -/
theorem lists_onPage : (rows.onPage page).Lists page entries ↔ rows.Lists page entries := by
  simp [Lists, listing, onPage]

theorem Lists.place_of_mem (hlists : rows.Lists page entries)
    {entry : Option RecordAddress × List Field} (hentry : entry ∈ entries) :
    ∃ slot, entry.1 = some ⟨page, slot⟩ := by
  obtain ⟨count, -, rfl⟩ := hlists
  obtain ⟨slot, -, hslot⟩ := List.mem_filterMap.mp hentry
  obtain ⟨fields, -, rfl⟩ := Option.map_eq_some_iff.mp hslot
  exact ⟨slot, rfl⟩

/-- The rows of a page are listed in the order of their slots. -/
theorem Lists.pairwise (hlists : rows.Lists page entries) : entries.Pairwise Before := by
  obtain ⟨count, -, rfl⟩ := hlists
  rw [listing, List.pairwise_filterMap]
  apply List.pairwise_lt_range.imp
  intro slot other hlt entry hentry next hnext
  obtain ⟨fields, -, rfl⟩ := Option.map_eq_some_iff.mp hentry
  obtain ⟨others, -, rfl⟩ := Option.map_eq_some_iff.mp hnext
  refine ⟨⟨page, slot⟩, ⟨page, other⟩, rfl, rfl, ?_⟩
  rw [RecordAddress.compare_eq_lt_iff]
  exact Or.inr ⟨rfl, hlt⟩

end Rows

namespace Store

open HeapStore.Action

variable {store after last : Store} {changed still later : List Page} {tid : TransactionId}
  {address : PageAddress} {cursor final : Cursor} {held others : List Store}
  {given rows : List Row} {parts more : List (List (Option RecordAddress × List Field))}

/-! ## Reading -/

/-- A store that differs in its locks and in which clean pages are cached. -/
structure Reread (store : Store) (changed : List Page) (after : Store) (still : List Page) :
    Prop where
  coherent : Coherent after still
  plain : ∃ locks, after.plain still = (store.plain changed).withLocks locks

namespace Reread

theorem refl (hcoherent : Coherent store changed) : Reread store changed store changed :=
  ⟨hcoherent, store.pool.locks, rfl⟩

theorem trans (hfirst : Reread store changed after still)
    (hsecond : Reread after still last later) :
    Reread store changed last later := by
  obtain ⟨locks, hplain⟩ := hfirst.plain
  obtain ⟨others, hlast⟩ := hsecond.plain
  exact ⟨hsecond.coherent, others, by rw [hlast, hplain]; rfl⟩

variable (hreread : Reread store changed after still)

include hreread

theorem disk : after.disk = store.disk := by
  obtain ⟨locks, hplain⟩ := hreread.plain
  exact congrArg PlainStore.disk hplain

theorem catalog : after.catalog = store.catalog := by
  obtain ⟨locks, hplain⟩ := hreread.plain
  exact congrArg PlainStore.catalog hplain

theorem small (hsmall : store.catalog.Small store.disk) : after.catalog.Small after.disk := by
  obtain ⟨locks, hplain⟩ := hreread.plain
  exact small_of_plain hplain hsmall

theorem pageCount (table : Table) : after.pageCount table = store.pageCount table := by
  simp only [Store.pageCount, tableContent, hreread.disk]

theorem shown (hcoherent : Coherent store changed) (hsmall : store.catalog.Small store.disk) :
    after.shown = store.shown := by
  obtain ⟨locks, hplain⟩ := hreread.plain
  rw [shown_eq_present hreread.coherent (hreread.small hsmall), hplain,
    shown_eq_present hcoherent hsmall]
  rfl

end Reread

/-- To get a page changes nothing but locks, and the page has the rows that the store shows. -/
theorem reread_getPage (hcoherent : Coherent store changed)
    (hsmall : store.catalog.Small store.disk) {access : Access}
    {result : Except StoreError Frame}
    (hget : (getPage tid address access []).perform store = (result, after)) :
    ∃ still, Reread store changed after still ∧ ∀ frame, result = .ok frame →
      frame ∈ after.pool.resident ∧ frame.page.address = address ∧
        frame.page.toRows = store.shown.onPage address := by
  have hagree := getPage_agree hcoherent tid address access (Or.inl hsmall)
  obtain ⟨locks, hlocks⟩ :=
    PlainStore.getPage_withLocks tid address access (store.plain changed)
  rw [hget] at hagree
  cases hplain : (store.plain changed).getPage tid address access with
  | mk outcome reached =>
      rw [hplain] at hagree hlocks
      cases hagree with
      | error hafter => exact ⟨_, ⟨hafter, locks, hlocks⟩, fun _ hframe => absurd hframe (by simp)⟩
      | @ok frame page _ still hafter hshows =>
          refine ⟨still, ⟨hafter, locks, hlocks⟩, ?_⟩
          intro found hfound
          obtain rfl := Except.ok.inj hfound
          obtain ⟨hframe, rfl⟩ := hshows
          obtain ⟨-, -, -, hpage⟩ := PlainStore.of_getPage hplain
          obtain ⟨haddress, hfields⟩ := PlainStore.of_page hpage
          have haddress : frame.page.address = address := haddress
          refine ⟨hframe, haddress, ?_⟩
          rw [shown_eq_present hcoherent hsmall]
          funext place
          simp only [Page.toRows, Rows.onPage, haddress]
          split
          · rename_i hplace
            rw [← Page.fields?_normal, hfields, ← hplace]
          · rfl

/-- The rows that a cursor takes from a page are those that the store shows there. -/
theorem reread_pageRows (hcoherent : Coherent store changed)
    (hsmall : store.catalog.Small store.disk) {number : Nat} {result : Except StoreError (List Row)}
    (hrows : (cursor.pageRows number).perform store = (result, after)) :
    ∃ still, Reread store changed after still ∧ ∀ rows, result = .ok rows →
      store.shown.Lists ⟨cursor.table.id, UInt32.ofNat number⟩ (rows.map Row.entry) := by
  rw [perform_pageRows] at hrows
  cases hget : (getPage cursor.transaction ⟨cursor.table.id, UInt32.ofNat number⟩ .readOnly
    []).perform store with
  | mk outcome last =>
      rw [hget] at hrows
      obtain ⟨rfl, rfl⟩ := Prod.mk.inj hrows
      obtain ⟨still, hreread, hframe⟩ := reread_getPage hcoherent hsmall hget
      refine ⟨still, hreread, ?_⟩
      intro rows hok
      cases outcome with
      | error error => exact absurd hok (by simp [Except.map])
      | ok frame =>
          obtain rfl := Except.ok.inj hok
          obtain ⟨hmem, haddress, hshown⟩ := hframe frame rfl
          have hlists :=
            Page.lists_rows (Page.sound_of_normal (hreread.coherent.sound_normal hmem))
          rw [haddress, hshown] at hlists
          exact Rows.lists_onPage.mp hlists

/-- To ask for a row changes nothing but locks and the cache, also if there is an error. -/
theorem reread_next (hcoherent : Coherent store changed) (hsmall : store.catalog.Small store.disk)
    (cursor : Cursor) : ∃ still, Reread store changed (cursor.next store).2 still := by
  fun_induction Cursor.next cursor store generalizing changed with
  | case2 cursor store hopen hpending hmore rows mid hrows ih =>
      obtain ⟨still, hmid, -⟩ := reread_pageRows hcoherent hsmall hrows
      obtain ⟨later, hafter⟩ := ih hmid.coherent (hmid.small hsmall)
      exact ⟨later, hmid.trans hafter⟩
  | case3 cursor store hopen hpending hmore error mid hrows =>
      obtain ⟨still, hmid, -⟩ := reread_pageRows hcoherent hsmall hrows
      exact ⟨still, hmid⟩
  | _ => exact ⟨changed, .refl hcoherent⟩

/-! ## What a scan takes -/

/-- From one cursor to the other a scan has given these rows, and has taken from the pages that it
came to in these stores the rows that they showed. -/
structure Takes (cursor : Cursor) (held : List Store)
    (parts : List (List (Option RecordAddress × List Field))) (given : List Row) (final : Cursor) :
    Prop where
  table : final.table = cursor.table
  position : final.nextPage = cursor.nextPage + parts.length
  rows : (given ++ final.pending).map Row.entry = cursor.pending.map Row.entry ++ parts.flatten
  stores : held.length = parts.length
  lists : ∀ i store part, held[i]? = some store → parts[i]? = some part →
    cursor.nextPage + i < (store.pageCount cursor.table).toNat ∧
      store.shown.Lists ⟨cursor.table.id, UInt32.ofNat (cursor.nextPage + i)⟩ part

namespace Takes

theorem refl (cursor : Cursor) : Takes cursor [] [] [] cursor :=
  ⟨rfl, rfl, by simp, rfl, fun _ _ _ hstore => absurd hstore (by simp)⟩

theorem trans {reached : Cursor} (hfirst : Takes cursor held parts given reached)
    (hsecond : Takes reached others more rows final) :
    Takes cursor (held ++ others) (parts ++ more) (given ++ rows) final where
  table := hsecond.table.trans hfirst.table
  position := by
    rw [hsecond.position, hfirst.position, List.length_append]
    omega
  rows := by
    rw [List.append_assoc, List.map_append, hsecond.rows, ← List.append_assoc, ← List.map_append,
      hfirst.rows, List.flatten_append, List.append_assoc]
  stores := by rw [List.length_append, List.length_append, hfirst.stores, hsecond.stores]
  lists i store part hstore hpart := by
    rcases Nat.lt_or_ge i parts.length with hlt | hge
    · rw [List.getElem?_append_left (hfirst.stores ▸ hlt)] at hstore
      rw [List.getElem?_append_left hlt] at hpart
      exact hfirst.lists i store part hstore hpart
    · rw [List.getElem?_append_right (hfirst.stores ▸ hge), hfirst.stores] at hstore
      rw [List.getElem?_append_right hge] at hpart
      have hlater := hsecond.lists (i - parts.length) store part hstore hpart
      rw [hfirst.position, hfirst.table] at hlater
      have hnumber : cursor.nextPage + parts.length + (i - parts.length) = cursor.nextPage + i := by
        omega
      rwa [hnumber] at hlater

/-- The rows come in the order of their addresses. -/
theorem ascending (htakes : Takes cursor held parts given final) :
    parts.flatten.Pairwise Before := by
  have hpart : ∀ i (hi : i < parts.length), cursor.nextPage + i < UInt32.size ∧ ∃ rows : Rows,
      rows.Lists ⟨cursor.table.id, UInt32.ofNat (cursor.nextPage + i)⟩ parts[i] := by
    intro i hi
    obtain ⟨hmore, hlists⟩ := htakes.lists i _ _
      (List.getElem?_eq_getElem (htakes.stores.symm ▸ hi)) (List.getElem?_eq_getElem hi)
    exact ⟨Nat.lt_trans hmore (UInt32.toNat_lt_size _), _, hlists⟩
  rw [List.pairwise_flatten]
  constructor
  · intro part hmem
    obtain ⟨i, hi, rfl⟩ := List.getElem_of_mem hmem
    obtain ⟨-, rows, hlists⟩ := hpart i hi
    exact hlists.pairwise
  · rw [List.pairwise_iff_getElem]
    intro i j hi hj hlt entry hentry other hother
    obtain ⟨hfirst, rows, hlists⟩ := hpart i hi
    obtain ⟨hsecond, more, hmore⟩ := hpart j hj
    obtain ⟨slot, hplace⟩ := hlists.place_of_mem hentry
    obtain ⟨next, hnext⟩ := hmore.place_of_mem hother
    refine ⟨_, _, hplace, hnext, ?_⟩
    rw [RecordAddress.compare_eq_lt_iff]
    left
    rw [UInt32.lt_iff_toNat_lt, UInt32.toNat_ofNat_of_lt' hfirst, UInt32.toNat_ofNat_of_lt' hsecond]
    omega

end Takes

/-- What the next row does to a scan that meets no error. -/
theorem takes_next (hcoherent : Coherent store changed) (hsmall : store.catalog.Small store.disk)
    {row? : Option Row} (hnext : cursor.next store = ((row?.map .ok, final), after)) :
    ∃ parts still, Reread store changed after still ∧
      Takes cursor (List.replicate parts.length store) parts row?.toList final ∧
      (cursor.nextPage ≤ (store.pageCount cursor.table).toNat →
        final.nextPage ≤ (store.pageCount cursor.table).toNat) ∧
      (cursor.isOpen = true → row? = none →
        final.pending = [] ∧ (store.pageCount cursor.table).toNat ≤ final.nextPage) := by
  -- the pages that are come to are read one after the other, and all of them show the same
  suffices hall : ∃ parts still, Reread store changed after still ∧ ∀ held : Store,
      held.shown = store.shown → held.pageCount cursor.table = store.pageCount cursor.table →
        Takes cursor (List.replicate parts.length held) parts row?.toList final ∧
        (cursor.nextPage ≤ (store.pageCount cursor.table).toNat →
          final.nextPage ≤ (store.pageCount cursor.table).toNat) ∧
        (cursor.isOpen = true → row? = none →
          final.pending = [] ∧ (store.pageCount cursor.table).toNat ≤ final.nextPage) by
    obtain ⟨parts, still, hreread, htakes⟩ := hall
    exact ⟨parts, still, hreread, htakes store rfl rfl⟩
  have hgives := Cursor.gives_of_next hnext
  clear hnext
  induction hgives generalizing changed with
  | left hopen hpending =>
      refine ⟨[], changed, .refl hcoherent, fun held _ _ => ⟨⟨rfl, rfl, ?_, rfl, ?_⟩, id, ?_⟩⟩
      · simp [hpending]
      · exact fun _ _ _ hstore => absurd hstore (by simp)
      · exact fun _ hnone => absurd hnone (by simp)
  | @page cursor final store mid after rows row? hopen hpending hmore hrows hgives ih =>
      obtain ⟨still, hmid, hlists⟩ := reread_pageRows hcoherent hsmall hrows
      obtain ⟨parts, last, hafter, hrest⟩ := ih hmid.coherent (hmid.small hsmall)
      refine ⟨rows.map Row.entry :: parts, last, hmid.trans hafter, fun held hshown hcount => ?_⟩
      obtain ⟨htakes, hwithin, hend⟩ := hrest held
        (hshown.trans (hmid.shown hcoherent hsmall).symm)
        (hcount.trans (hmid.pageCount cursor.table).symm)
      rw [hmid.pageCount] at hwithin hend
      have hpage : Takes cursor [held] [rows.map Row.entry] []
          { cursor with nextPage := cursor.nextPage + 1, pending := rows } := by
        refine ⟨rfl, rfl, by simp [hpending], rfl, ?_⟩
        intro i store part hstore hpart
        cases i with
        | zero =>
            obtain rfl := Option.some.inj hstore
            obtain rfl := Option.some.inj hpart
            rw [hcount, hshown]
            exact ⟨hmore, hlists rows rfl⟩
        | succ i => exact absurd hstore (by simp)
      exact ⟨hpage.trans htakes, fun _ => hwithin hmore, fun _ => hend hopen⟩
  | ended hopen hpending hend =>
      refine ⟨[], changed, .refl hcoherent, fun held _ _ => ⟨⟨rfl, rfl, ?_, rfl, ?_⟩, id, ?_⟩⟩
      · simp [Cursor.close, hpending]
      · exact fun _ _ _ hstore => absurd hstore (by simp)
      · exact fun _ _ => ⟨rfl, Nat.le_of_not_lt hend⟩
  | @closed cursor store hclosed =>
      exact ⟨[], changed, .refl hcoherent, fun held _ _ =>
        ⟨.refl cursor, id, fun hopen => absurd hopen hclosed⟩⟩

/-- A table whose file has got longer has as many pages, or more. -/
theorem pageCount_le {table : Table} (hsmall : table.Small (store.tableContent table))
    (hstill : table.Small (after.tableContent table))
    (hle : (store.tableContent table).size ≤ (after.tableContent table).size) :
    (store.pageCount table).toNat ≤ (after.pageCount table).toNat := by
  rw [Store.pageCount, Store.pageCount, Table.pageCount_of_small hsmall,
    Table.pageCount_of_small hstill]
  exact Nat.div_le_div_right hle

/-- What a scan takes among turns, up to its end. -/
theorem takes_through (moments : List Moment) (hcoherent : Coherent store changed)
    (hsize : store.catalog.pageSize ≤ maxPageSize)
    (hregistered : store.catalog.table cursor.table.id = .ok cursor.table)
    (hwithin : cursor.nextPage ≤ (store.pageCount cursor.table).toNat)
    (hfixed : ∀ turn, .turn turn ∈ moments → turn.operation.Fixed)
    (hpermits : cursor.Permits store (moments.map .moment)) {rows : List Row} {reached : Cursor}
    (hthrough : cursor.through store moments = ((rows.map .ok, reached), last))
    (hopen : reached.isOpen = true) (hend : reached.next last = ((none, final), after)) :
    ∃ parts, Takes cursor (cursor.arrivals store (moments ++ [.row])) parts rows final ∧
      final.pending = [] ∧ final.nextPage = (after.pageCount cursor.table).toNat := by
  induction moments generalizing store changed cursor rows with
  | nil =>
      obtain ⟨hnone, rfl⟩ := Prod.mk.inj hthrough
      obtain ⟨hrows, rfl⟩ := Prod.mk.inj hnone
      obtain rfl := List.map_eq_nil_iff.mp hrows.symm
      have hnone : cursor.next store = (((none : Option Row).map .ok, final), after) := hend
      obtain ⟨parts, still, hreread, htakes, hnot, hall⟩ := takes_next hcoherent hpermits hnone
      obtain ⟨hpending, hcount⟩ := hall hopen rfl
      refine ⟨parts, ?_, hpending, ?_⟩
      · have hposition : final.nextPage - cursor.nextPage = parts.length := by
          rw [htakes.position]
          omega
        simp only [List.nil_append, Cursor.arrivals, hend, hposition, List.append_nil]
        exact htakes
      · rw [hreread.pageCount]
        exact Nat.le_antisymm (hnot hwithin) hcount
  | cons moment moments ih =>
      have hrest : ∀ turn, .turn turn ∈ moments → turn.operation.Fixed :=
        fun turn hturn => hfixed turn (List.mem_cons_of_mem _ hturn)
      obtain ⟨hsmall, hfits, hlater⟩ := hpermits
      cases moment with
      | turn turn =>
          obtain ⟨still, hmid, hcatalog, hlengths⟩ := coherent_turn hcoherent hsmall hsize
            (show turn.Fits store from hfits) (hfixed turn List.mem_cons_self)
          have hregistered' := hcatalog.symm ▸ hregistered
          have hgrows := pageCount_le (hsmall.of_table hregistered)
            (hlater.head.of_table hregistered') (hlengths _ _ hregistered)
          exact ih hmid (by rwa [hcatalog]) hregistered' (Nat.le_trans hwithin hgrows) hrest hlater
            hthrough
      | row =>
          have hplayed : (cursor.next store).1.2.Permits (cursor.next store).2
              (moments.map .moment) := hlater
          simp only [Cursor.through] at hthrough
          simp only [List.cons_append, Cursor.arrivals]
          clear hlater
          revert hthrough hplayed
          cases hnext : cursor.next store with
          | mk result mid =>
              obtain ⟨found, middle⟩ := result
              simp only
              intro hthrough hplayed
              obtain ⟨hresult, rfl⟩ := Prod.mk.inj hthrough
              obtain ⟨hfound, rfl⟩ := Prod.mk.inj hresult
              obtain ⟨row?, others, rfl, rfl, hothers⟩ := toList_append_eq_map hfound
              obtain ⟨parts, still, hreread, htakes, hnot, -⟩ := takes_next hcoherent hsmall hnext
              obtain ⟨more, hmore, hdone⟩ := ih hreread.coherent (by rwa [hreread.catalog])
                (by rwa [hreread.catalog, htakes.table])
                (by rw [hreread.pageCount, htakes.table]; exact hnot hwithin) hrest hplayed
                (Prod.ext (Prod.ext hothers rfl) rfl)
              have hposition : middle.nextPage - cursor.nextPage = parts.length := by
                rw [htakes.position]
                omega
              rw [htakes.table] at hdone
              rw [hposition]
              exact ⟨parts ++ more, htakes.trans hmore, hdone⟩

/-- What moves do to a cursor and a store. -/
theorem coherent_play (moves : List Move) (hcoherent : Coherent store changed)
    (hsize : store.catalog.pageSize ≤ maxPageSize) (hfixed : ∀ move ∈ moves, move.Fixed)
    (hpermits : cursor.Permits store moves) :
    ∃ still, Coherent (cursor.play store moves).2 still ∧
      (cursor.play store moves).2.catalog = store.catalog := by
  induction moves generalizing store changed cursor with
  | nil => exact ⟨changed, hcoherent, rfl⟩
  | cons move moves ih =>
      obtain ⟨hsmall, hfits, hlater⟩ := hpermits
      have hmid : ∃ still, Coherent (cursor.move store move).2 still ∧
          (cursor.move store move).2.catalog = store.catalog := by
        cases move with
        | moment moment =>
            cases moment with
            | turn turn =>
                obtain ⟨still, hafter, hcatalog, -⟩ := coherent_turn hcoherent hsmall hsize
                  (show turn.Fits store from hfits) (hfixed _ List.mem_cons_self)
                exact ⟨still, hafter, hcatalog⟩
            | row =>
                obtain ⟨still, hreread⟩ := reread_next hcoherent hsmall cursor
                exact ⟨still, hreread.coherent, hreread.catalog⟩
        | close => exact ⟨changed, hcoherent, rfl⟩
        | rewind => exact ⟨changed, hcoherent, rfl⟩
      obtain ⟨still, hafter, hcatalog⟩ := hmid
      obtain ⟨later, hlast, hsame⟩ := ih hafter (by rwa [hcatalog])
        (fun other hother => hfixed other (List.mem_cons_of_mem move hother)) hlater
      exact ⟨later, hlast, hsame.trans hcatalog⟩

/-- The rows are those of all pages that the table has after the scan, in the order of their
addresses, each page as it was in the store in which the scan came to it. -/
structure Complete (table : Table) (held : List Store) (rows : List Row) (after : Store) :
    Prop where
  pages : held.length = (after.pageCount table).toNat
  parts : ∃ parts : List (List (Option RecordAddress × List Field)), parts.length = held.length ∧
    rows.map Row.entry = parts.flatten ∧
    ∀ (number : Nat) (store : Store) (part : List (Option RecordAddress × List Field)),
      held[number]? = some store → parts[number]? = some part →
        number < (store.pageCount table).toNat ∧
          store.shown.Lists ⟨table.id, UInt32.ofNat number⟩ part
  ascending : (rows.map Row.entry).Pairwise Before

/-- A cursor that was rewound after any moves is a new one.  A scan that begins with it, meets no
error and comes to its end has given all rows of all pages in their order.  A cursor that was
closed, has come to its end or has met an error gives nothing until it is rewound. -/
theorem scan_complete {start : Store} {before : List Turn} {table : Table} {earlier : List Move}
    {found : List (Except StoreError Row)} (hopened : Opened start)
    (hapart : start.catalog.Apart start.log.location)
    (hbefore : ∀ turn ∈ before, turn.operation.Fixed) (hadmits : start.Admits before)
    (hregistered : start.catalog.table table.id = .ok table)
    (hearlier : ∀ move ∈ earlier, move.Fixed)
    (hpermits : (Cursor.start table tid).Permits (start.follow before) earlier)
    (hplay : (Cursor.start table tid).play (start.follow before) earlier
      = ((found, cursor), store)) :
    cursor.rewind = Cursor.start table tid ∧
    (∀ move later, cursor.StoppedBy store move → .rewind ∉ later →
      ((cursor.move store move).1.2.play (cursor.move store move).2 later).1.1 = []) ∧
    ∀ (moments : List Moment) (rows : List Row) (reached final : Cursor) (last after : Store),
      (∀ turn, .turn turn ∈ moments → turn.operation.Fixed) →
      cursor.rewind.Permits store (moments.map .moment) →
      cursor.rewind.through store moments = ((rows.map .ok, reached), last) →
      reached.isOpen = true → reached.next last = ((none, final), after) →
      Complete table (cursor.rewind.arrivals store (moments ++ [.row])) rows after := by
  have hrewound : cursor.rewind = Cursor.start table tid := by
    have hsame := Cursor.rewind_play (Cursor.start table tid) (start.follow before) earlier
    rwa [hplay] at hsame
  refine ⟨hrewound, ?_, ?_⟩
  · intro move later hstopped hrewind
    exact Cursor.play_closed (Cursor.closed_of_stoppedBy hstopped) later hrewind
  · rw [hrewound]
    intro moments rows reached final last after hfixed hmoments hthrough hopen hend
    have hsize := hopened.begun.size
    obtain ⟨changed, hcoherent, hcatalog⟩ :=
      coherent_follow before (hopened.fresh.coherent hapart) hsize hadmits hbefore
    rw [← hcatalog] at hsize hregistered
    obtain ⟨still, hmid, hsame⟩ := coherent_play earlier hcoherent hsize hearlier hpermits
    rw [hplay] at hmid hsame
    have hfirst : (Cursor.start table tid).nextPage ≤ (store.pageCount table).toNat :=
      Nat.zero_le _
    obtain ⟨parts, htakes, hpending, hposition⟩ := takes_through moments hmid (by rwa [hsame])
      (by rwa [hsame]) hfirst hfixed hmoments hthrough hopen hend
    have hrows : rows.map Row.entry = parts.flatten := by
      simpa [hpending, Cursor.start] using htakes.rows
    have hcount : parts.length = (after.pageCount table).toNat := by
      rw [htakes.position] at hposition
      simpa [Cursor.start] using hposition
    refine ⟨htakes.stores.trans hcount, ⟨parts, htakes.stores.symm, hrows, ?_⟩, ?_⟩
    · simpa [Cursor.start] using htakes.lists
    · rw [hrows]
      exact htakes.ascending

/-- A table of two pages.  A cursor is closed, gives nothing, and is rewound; while the scan is on
the first page, its transaction inserts a row on the second one and deletes one that the scan has
already taken. -/
theorem scan_complete_sample :
    let before := [.step .begin, .step (.insert 1 sampleTable (sampleRow 7)),
      .step (.insert 1 sampleTable (sampleRow 8)), .step (.insert 1 sampleTable (sampleRow 9)),
      .step (.insert 1 sampleTable (sampleRow 10)), .step (.commit 1), .step .begin]
    let moments := [.row, .turn (.step (.insert 2 sampleTable (sampleRow 11))),
      .turn (.step (.delete 2 (sampleRowAt 9 0 2))), .row, .row, .row, .row]
    let played := (Cursor.start sampleHeap 2).play (sample.follow before) [.moment .row]
    let scan := (Cursor.start sampleHeap 2).through played.2 moments
    let last := scan.1.2.next scan.2
    (played.1.2.close.play played.2 [.moment .row]).1.1 = [] ∧
      ∃ rows : List Row, scan.1.1 = rows.map .ok ∧ rows.length = 5 ∧
        Complete sampleHeap ((Cursor.start sampleHeap 2).arrivals played.2 (moments ++ [.row])) rows
          last.2 := by
  intro before moments played scan last
  let rows := [sampleRowAt 7 0 0, sampleRowAt 8 0 1, sampleRowAt 9 0 2, sampleRowAt 10 1 0,
    sampleRowAt 11 1 1]
  have hscan : scan.1.1 = rows.map .ok := by decide +kernel
  have hlast : last.1.1 = none := by decide +kernel
  have hbefore : ∀ turn ∈ before, turn.operation.Fixed := by
    simp [before, Turn.operation, Operation.Fixed, valid_sampleRow]
  have hmoments : ∀ turn, .turn turn ∈ moments → turn.operation.Fixed := by
    simp [moments, Turn.operation, Operation.Fixed, valid_sampleRow]
  have hplay : (Cursor.start sampleHeap 2).play (sample.follow before) [.moment .row]
      = ((played.1.1, played.1.2), played.2) := rfl
  obtain ⟨hrewound, hstopped, hcomplete⟩ := scan_complete opened_sample (by decide +kernel) hbefore
    (by decide +kernel) (by decide +kernel) (by simp [Move.Fixed]) (by decide +kernel) hplay
  rw [hrewound] at hcomplete
  exact ⟨hstopped .close [.moment .row] (Or.inl rfl) (by simp), rows, hscan, rfl,
    hcomplete moments rows scan.1.2 last.1.2 scan.2 last.2 hmoments (by decide +kernel)
      (Prod.ext (Prod.ext hscan rfl) rfl) (by decide +kernel) (Prod.ext (Prod.ext hlast rfl) rfl)⟩

end Store

end HeapStore
