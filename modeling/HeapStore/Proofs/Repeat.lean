import HeapStore.Proofs.Limit
import HeapStore.Proofs.Opening
import HeapStore.Proofs.Steady

/-!
# Scans that repeat

A transaction scans a table row by row while other transactions go on.  Once the scan has come to
its end, the transaction has locked all pages of the table, and if there is one, nobody can put rows
anywhere else in the table: a second scan gives the same rows in the same order
(`scans_repeat`).

A table without pages leaves a scan nothing to lock, so another transaction may insert into it and
commit, and a second scan gives the row (`empty_scan_not_repeated`).  An insertion of the
transaction itself that fails may take the table over the limit of page numbers, and then a second
scan gives nothing (`full_scan_not_repeated`).
-/

namespace HeapStore

/-! ## Scans among turns -/

/-- A turn of some transaction, or the next row of a scan. -/
inductive Moment where
  | turn (turn : Turn)
  | row

namespace Cursor

/-- What a scan gives in these moments, with the cursor and the store after them. -/
def through (cursor : Cursor) (store : Store) :
    List Moment → (List (Except StoreError Row) × Cursor) × Store
  | [] => (([], cursor), store)
  | .turn turn :: rest => cursor.through (store.turn turn).2 rest
  | .row :: rest =>
    let next := cursor.next store
    let later := next.1.2.through next.2 rest
    ((next.1.1.toList ++ later.1.1, later.1.2), later.2)

/-- The turns fit the stores that they come to, and the tables stay small there; the transaction
that scans does not end, and does not change the table. -/
def Admits (cursor : Cursor) (store : Store) : List Moment → Prop
  | [] => store.catalog.Small store.disk
  | .turn turn :: rest =>
    store.catalog.Small store.disk ∧ turn.Fits store ∧
      turn.operation.ends cursor.transaction = false ∧
      turn.operation.changes cursor.transaction cursor.table.id (store.turn turn).1 = false ∧
      cursor.Admits (store.turn turn).2 rest
  | .row :: rest =>
    store.catalog.Small store.disk ∧ (cursor.next store).1.2.Admits (cursor.next store).2 rest

instance decidableAdmits (cursor : Cursor) (store : Store) (moments : List Moment) :
    Decidable (cursor.Admits store moments) :=
  match moments with
  | [] => inferInstanceAs (Decidable (store.catalog.Small store.disk))
  | .turn turn :: rest =>
    let _ := decidableAdmits cursor (store.turn turn).2 rest
    inferInstanceAs (Decidable (_ ∧ _ ∧ _ ∧ _ ∧ _))
  | .row :: rest =>
    let _ := decidableAdmits (cursor.next store).1.2 (cursor.next store).2 rest
    inferInstanceAs (Decidable (_ ∧ _))

variable {cursor : Cursor} {store : Store} {moments : List Moment}

theorem Admits.last (hadmits : cursor.Admits store moments) :
    (cursor.through store moments).2.catalog.Small (cursor.through store moments).2.disk := by
  induction moments generalizing cursor store with
  | nil => exact hadmits
  | cons moment moments ih =>
      cases moment with
      | turn turn => exact ih hadmits.2.2.2.2
      | row => exact ih hadmits.2

/-- Rows alone are admitted as long as the tables are small. -/
theorem admits_rows (count : Nat) (hsmall : store.catalog.Small store.disk) :
    cursor.Admits store (List.replicate count .row) := by
  induction count generalizing cursor store with
  | zero => exact hsmall
  | succ count ih =>
      refine ⟨hsmall, ih ?_⟩
      obtain ⟨pool, hpool⟩ := next_withPool cursor store
      rw [hpool]
      exact hsmall

/-- How a cursor comes to its next row, if it meets no error: it has one left of its page, or reads
pages up to one that has a row, or up to the end. -/
inductive Gives : Cursor → Store → Option Row → Cursor → Store → Prop
  | left {cursor : Cursor} {store : Store} {row : Row} {rest : List Row}
      (hopen : cursor.isOpen = true) (hpending : cursor.pending = row :: rest) :
      Gives cursor store (some row) { cursor with pending := rest } store
  | page {cursor final : Cursor} {store mid after : Store} {rows : List Row} {row? : Option Row}
      (hopen : cursor.isOpen = true) (hpending : cursor.pending = [])
      (hmore : cursor.nextPage < (store.pageCount cursor.table).toNat)
      (hrows : (cursor.pageRows cursor.nextPage).perform store = (.ok rows, mid))
      (hrest : Gives { cursor with nextPage := cursor.nextPage + 1, pending := rows } mid row? final
        after) : Gives cursor store row? final after
  | ended {cursor : Cursor} {store : Store} (hopen : cursor.isOpen = true)
      (hpending : cursor.pending = [])
      (hend : ¬ cursor.nextPage < (store.pageCount cursor.table).toNat) :
      Gives cursor store none cursor.close store
  | closed {cursor : Cursor} {store : Store} (hclosed : ¬ cursor.isOpen = true) :
      Gives cursor store none cursor store

theorem gives_of_next {row? : Option Row} {final : Cursor} {after : Store}
    (hnext : cursor.next store = ((row?.map .ok, final), after)) :
    Gives cursor store row? final after := by
  revert hnext
  fun_induction Cursor.next cursor store with
  | case1 cursor store hopen row rest hpending =>
      intro hnext
      obtain ⟨hfirst, rfl⟩ := Prod.mk.inj hnext
      obtain ⟨hrow, rfl⟩ := Prod.mk.inj hfirst
      obtain ⟨found, rfl, hok⟩ := Option.map_eq_some_iff.mp hrow.symm
      obtain rfl := Except.ok.inj hok
      exact .left hopen hpending
  | case2 cursor store hopen hpending hmore rows mid hrows ih =>
      exact fun hnext => .page hopen hpending hmore hrows (ih hnext)
  | case3 cursor store hopen hpending hmore error mid hrows =>
      intro hnext
      have hrow := (Prod.mk.inj (Prod.mk.inj hnext).1).1
      obtain ⟨found, -, hfound⟩ := Option.map_eq_some_iff.mp hrow.symm
      exact absurd hfound (by simp)
  | case4 cursor store hopen hpending hend =>
      intro hnext
      obtain ⟨hfirst, rfl⟩ := Prod.mk.inj hnext
      obtain ⟨hrow, rfl⟩ := Prod.mk.inj hfirst
      obtain rfl := Option.map_eq_none_iff.mp hrow.symm
      exact .ended hopen hpending hend
  | case5 cursor store hclosed =>
      intro hnext
      obtain ⟨hfirst, rfl⟩ := Prod.mk.inj hnext
      obtain ⟨hrow, rfl⟩ := Prod.mk.inj hfirst
      obtain rfl := Option.map_eq_none_iff.mp hrow.symm
      exact .closed hclosed

/-- The rows that the cursor has taken from its page come first. -/
theorem through_pending (cursor : Cursor) (hopen : cursor.isOpen = true) (rows : List Row)
    (store : Store) (moments : List Moment) :
    through { cursor with pending := rows } store (List.replicate rows.length .row ++ moments) =
      let later := through { cursor with pending := [] } store moments
      ((rows.map .ok ++ later.1.1, later.1.2), later.2) := by
  induction rows with
  | nil => rfl
  | cons row rows ih =>
      rw [List.length_cons, List.replicate_succ, List.cons_append]
      simp only [through, next_of_row hopen row rows]
      rw [ih]
      rfl

/-- A scan at once gives what it gives row by row. -/
theorem rest_through (cursor : Cursor) (store : Store) :
    ∃ count, cursor.rest store = cursor.through store (List.replicate (count + 1) .row) := by
  -- the rows of the page at hand come first, so the others decide
  suffices hothers : cursor.isOpen = true → ∃ count,
      cursor.rest store =
        let later := through { cursor with pending := [] } store (List.replicate (count + 1) .row)
        ((cursor.pending.map .ok ++ later.1.1, later.1.2), later.2) by
    cases hopen : cursor.isOpen with
    | true =>
        obtain ⟨count, hcount⟩ := hothers hopen
        refine ⟨cursor.pending.length + count, ?_⟩
        rw [Nat.add_assoc, List.replicate_add, hcount]
        exact (through_pending cursor hopen cursor.pending store _).symm
    | false =>
        have hclosed : ¬ cursor.isOpen = true := by simp [hopen]
        exact ⟨0, by simp [through, next_of_closed hclosed, rest, hopen]⟩
  fun_induction rest cursor store with
  | case1 cursor store hopen hmore rows after hrows others final last hrest ih =>
      intro _
      obtain ⟨count, hcount⟩ := ih hopen
      have hpage := through_pending
        { cursor with nextPage := cursor.nextPage + 1, pending := rows } hopen rows after
        (List.replicate (count + 1) .row)
      rw [← List.replicate_add, ← hcount, hrest, ← Nat.add_assoc, List.replicate_succ] at hpage
      refine ⟨rows.length + count, ?_⟩
      have hlater : through { cursor with pending := [] } store
          (List.replicate (rows.length + count + 1) .row) = ((others, final), last) := by
        rw [List.replicate_succ, ← hpage]
        simp only [through, next_of_rows hopen hmore hrows]
      rw [hlater]
  | case2 cursor store hopen hmore error after hrows =>
      intro _
      exact ⟨0, by simp [through, next_of_error hopen hmore hrows]⟩
  | case3 cursor store hopen hend =>
      intro _
      exact ⟨0, by simp [through, next_of_end hopen hend]⟩
  | case4 cursor store hclosed => exact fun hopen => absurd hopen hclosed

end Cursor

namespace Store

open HeapStore.Action

variable {store after : Store} {changed : List Page} {initial : Rows} {ledger : Ledger}
  {tid : TransactionId} {id : TableId} {cursor final : Cursor}
  {done : List (Option RecordAddress × List Field)}
  {parts known : List (List (Option RecordAddress × List Field))} {least : Nat}

/-! ## Turns of others -/

theorem changes_turn (hcoherent : Coherent store changed) (hsmall : store.catalog.Small store.disk)
    {turn : Turn} (hfixed : turn.operation.Fixed) :
    turn.operation.changes tid id ((store.plain changed).turn turn).1
      = turn.operation.changes tid id (store.turn turn).1 := by
  cases hevict : turn.operation.isEvict with
  | false => rw [(turn_agree hcoherent hsmall hfixed).1 hevict]
  | true =>
      cases hoperation : turn.operation with
      | evict latched => rfl
      | _ => exact absurd hevict (by simp [hoperation, Operation.isEvict])

/-- A turn leaves alone what a transaction reads, if it neither ends it nor lets it change the
table. -/
theorem Accounted.spares_turn (haccounted : Accounted initial ledger store changed)
    (hsmall : store.catalog.Small store.disk) (hsize : store.catalog.pageSize ≤ maxPageSize)
    {turn : Turn} (hfits : turn.Fits store) (htransactional : turn.operation.Transactional)
    (hgoes : turn.operation.ends tid = false)
    (hchanges : turn.operation.changes tid id (store.turn turn).1 = false) :
    ∃ later still event, Accounted initial later (store.turn turn).2 still ∧
      (store.plain changed).Spares tid id event ((store.turn turn).2.plain still) := by
  have hcoherent := haccounted.coherent
  have hguarded := haccounted.guarded
  obtain ⟨still, hafter, hconducts, hplain⟩ := haccounted.turn hsmall hfits htransactional
  obtain ⟨hcatalog, hlengths⟩ := lengths_turn hcoherent
    (⟨hcoherent.sound, hsmall, hsize⟩ : (store.plain changed).Writable) hfits
  rw [← changes_turn hcoherent hsmall htransactional.fixed] at hchanges
  have hevent := event_turn hcoherent hsmall htransactional.fixed
  rw [hplain] at hcatalog hlengths
  refine ⟨_, still, _, hafter, hconducts, Event.ends_of hgoes _, ?_, ?_, hcatalog, hlengths⟩
  · intro edit hedit
    exact PlainStore.elsewhere_of_unchanged hchanges (hevent ▸ hedit)
  · intro hheld who edit hedit
    exact PlainStore.content_of_edited hguarded hheld hchanges (hevent ▸ hedit)

/-! ## Rows of a scan -/

/-- A scan that is going on has given these rows, and has come to pages with these rows; when it is
over these are all rows of the table, if there was a page.  The table had at least so many pages
when the scan began. -/
structure Scanning (least : Nat) (cursor : Cursor)
    (done : List (Option RecordAddress × List Field))
    (parts : List (List (Option RecordAddress × List Field))) (plain : PlainStore) : Prop where
  reads : plain.Reads cursor.transaction cursor.table parts
  position : parts.length = cursor.nextPage
  rows : done ++ cursor.pending.map Row.entry = parts.flatten
  inFile : least ≤ (plain.disk.content cursor.table.location).size / cursor.table.pageSize
  closed : cursor.isOpen = false → cursor.pending = []
  reached : cursor.isOpen = false → least ≤ parts.length
  covers : cursor.isOpen = false → 0 < parts.length →
    plain.Covers cursor.transaction cursor.table parts

namespace Scanning

variable {plain last : PlainStore} {event : Event}

/-- Nothing more is asked of a scan that is not over. -/
theorem of_open (hopen : cursor.isOpen = true)
    (hreads : plain.Reads cursor.transaction cursor.table parts)
    (hposition : parts.length = cursor.nextPage)
    (hrows : done ++ cursor.pending.map Row.entry = parts.flatten)
    (hinFile : least ≤ (plain.disk.content cursor.table.location).size / cursor.table.pageSize) :
    Scanning least cursor done parts plain := by
  have hnever : ∀ {P : Prop}, cursor.isOpen = false → P :=
    fun hclosed => absurd (hopen.symm.trans hclosed) (by simp)
  exact ⟨hreads, hposition, hrows, hinFile, hnever, hnever, hnever⟩

theorem start {table : Table} (hregistered : plain.catalog.table table.id = .ok table)
    (tid : TransactionId) :
    Scanning ((plain.disk.content table.location).size / table.pageSize) (Cursor.start table tid)
      [] [] plain := by
  have hreads : plain.Reads tid table [] :=
    ⟨hregistered, Nat.zero_le _, fun _ hnumber => absurd hnumber (by simp),
      fun _ _ hpart => absurd hpart (by simp)⟩
  exact of_open rfl hreads rfl rfl (Nat.le_refl _)

theorem spared (hscanning : Scanning least cursor done parts plain) (hguarded : plain.Guarded)
    (hspares : plain.Spares cursor.transaction cursor.table.id event last) :
    Scanning least cursor done parts last where
  reads := hscanning.reads.spared hguarded hspares
  position := hscanning.position
  rows := hscanning.rows
  inFile := Nat.le_trans hscanning.inFile
    (Nat.div_le_div_right (hspares.lengths _ _ hscanning.reads.registered))
  closed := hscanning.closed
  reached := hscanning.reached
  covers hclosed hsome := (hscanning.covers hclosed hsome).spared hguarded hspares

end Scanning

/-- A store that differs in its cache and in locks that were given. -/
structure Read (store : Store) (changed : List Page) (after : Store) (still : List Page) :
    Prop where
  kept : (store.plain changed).Kept (after.plain still)
  pool : ∃ pool, after = store.withPool pool

namespace Read

variable {last : Store} {still later : List Page}

theorem refl (hguarded : (store.plain changed).Guarded) : Read store changed store changed :=
  ⟨.refl hguarded, store.pool, rfl⟩

theorem trans (hfirst : Read store changed after still) (hsecond : Read after still last later) :
    Read store changed last later := by
  obtain ⟨pool, rfl⟩ := hfirst.pool
  obtain ⟨pool, rfl⟩ := hsecond.pool
  exact ⟨hfirst.kept.trans hsecond.kept, pool, rfl⟩

theorem small (hread : Read store changed after still) (hsmall : store.catalog.Small store.disk) :
    after.catalog.Small after.disk := by
  obtain ⟨pool, rfl⟩ := hread.pool
  exact hsmall

theorem spares (hread : Read store changed after still) :
    (store.plain changed).Spares tid id .quiet (after.plain still) := by
  obtain ⟨pool, rfl⟩ := hread.pool
  exact hread.kept.spares rfl rfl

end Read

/-- A page that the scan comes to gives the rows that the transaction sees there. -/
theorem Accounted.reads_page (haccounted : Accounted initial ledger store changed)
    (hsmall : store.catalog.Small store.disk)
    (hscanning : Scanning least cursor done parts (store.plain changed))
    (hopen : cursor.isOpen = true) (hpending : cursor.pending = [])
    (hmore : cursor.nextPage < (store.pageCount cursor.table).toNat) {rows : List Row}
    (hrows : (cursor.pageRows cursor.nextPage).perform store = (.ok rows, after)) :
    ∃ still, Accounted initial ledger after still ∧ Read store changed after still ∧
      Scanning least { cursor with nextPage := cursor.nextPage + 1, pending := rows } done
        (parts ++ [rows.map Row.entry]) (after.plain still) := by
  rw [perform_pageRows] at hrows
  revert hrows
  cases hread : (getPage cursor.transaction ⟨cursor.table.id, UInt32.ofNat cursor.nextPage⟩
    .readOnly []).perform store with
  | mk result last =>
      intro hrows
      cases result with
      | error error => exact absurd (Prod.mk.inj hrows).1 (by simp [Except.map])
      | ok frame =>
          obtain ⟨hframe, rfl⟩ := Prod.mk.inj hrows
          obtain rfl := Except.ok.inj hframe
          obtain ⟨still, hafter, hkept, hgot⟩ := haccounted.kept_getPage hsmall hread
          obtain ⟨-, hgot⟩ := hgot frame rfl
          obtain ⟨pool, hpool⟩ := getPage_withPool cursor.transaction
            ⟨cursor.table.id, UInt32.ofNat cursor.nextPage⟩ .readOnly [] store
          rw [hread] at hpool
          obtain rfl : last = store.withPool pool := hpool
          have hlists := haccounted.listed hsmall hread
          rw [← Page.toRows_normal, ← PlainStore.view_of_got haccounted.accounts hgot,
            ← hkept.standing] at hlists
          have hspared := hscanning.reads.spared haccounted.guarded (hkept.spares rfl rfl)
          refine ⟨still, hafter, ⟨hkept, pool, rfl⟩, ?_⟩
          have hinFile : parts.length < (store.tableContent cursor.table).size
              / cursor.table.pageSize := by
            rw [hscanning.position]
            exact Nat.lt_of_lt_of_le hmore (Table.pageCount_le _ _)
          rw [← hscanning.position] at hgot hlists
          refine Scanning.of_open ?_ ?_ ?_ ?_ ?_
          · exact hopen
          · exact hspared.snoc hinFile hgot.held hlists
          · rw [List.length_append, hscanning.position]
            rfl
          · have hdone := hscanning.rows
            rw [hpending, List.map_nil, List.append_nil] at hdone
            rw [hdone, List.flatten_append, List.flatten_singleton]
          · exact hscanning.inFile

/-- The scan comes to its end when it has read all pages. -/
theorem Scanning.close (hscanning : Scanning least cursor done parts (store.plain changed))
    (hcoherent : Coherent store changed) (hsmall : store.catalog.Small store.disk)
    (hpending : cursor.pending = [])
    (hend : ¬ cursor.nextPage < (store.pageCount cursor.table).toNat) :
    Scanning least cursor.close done parts (store.plain changed) := by
  have hall : (store.tableContent cursor.table).size / cursor.table.pageSize ≤ parts.length := by
    have hcount : (store.pageCount cursor.table).toNat
        = (store.tableContent cursor.table).size / cursor.table.pageSize :=
      Table.pageCount_of_small (hsmall.of_table hscanning.reads.registered)
    rw [hscanning.position, ← hcount]
    exact Nat.le_of_not_lt hend
  have hrows := hscanning.rows
  rw [hpending] at hrows
  exact {
    reads := hscanning.reads
    position := hscanning.position
    rows := hrows
    inFile := hscanning.inFile
    closed := fun _ => rfl
    reached := fun _ => Nat.le_trans hscanning.inFile hall
    covers := fun _ hfirst => ⟨hscanning.reads, hfirst,
      PlainStore.bare_of_pageCount hcoherent.sound hscanning.reads.registered hall⟩ }

/-- What the next row does to a scan. -/
theorem Accounted.next (haccounted : Accounted initial ledger store changed)
    (hsmall : store.catalog.Small store.disk)
    (hscanning : Scanning least cursor done parts (store.plain changed)) {row? : Option Row}
    (hnext : cursor.next store = ((row?.map .ok, final), after)) :
    ∃ still parts, Accounted initial ledger after still ∧ Read store changed after still ∧
      Scanning least final (done ++ row?.toList.map Row.entry) parts (after.plain still) := by
  have hgives := Cursor.gives_of_next hnext
  clear hnext
  induction hgives generalizing changed parts with
  | left hopen hpending =>
      refine ⟨changed, parts, haccounted, .refl haccounted.guarded, ?_⟩
      refine Scanning.of_open ?_ ?_ ?_ ?_ ?_
      · exact hopen
      · exact hscanning.reads
      · exact hscanning.position
      · rw [← hscanning.rows, hpending]
        simp
      · exact hscanning.inFile
  | page hopen hpending hmore hrows _ ih =>
      obtain ⟨still, hmid, hread, hscanned⟩ :=
        haccounted.reads_page hsmall hscanning hopen hpending hmore hrows
      obtain ⟨last, later, hafter, hrest, hfinal⟩ := ih hmid (hread.small hsmall) hscanned
      exact ⟨last, later, hafter, hread.trans hrest, hfinal⟩
  | ended hopen hpending hend =>
      refine ⟨changed, parts, haccounted, .refl haccounted.guarded, ?_⟩
      rw [Option.toList_none, List.map_nil, List.append_nil]
      exact hscanning.close haccounted.coherent hsmall hpending hend
  | closed hclosed =>
      refine ⟨changed, parts, haccounted, .refl haccounted.guarded, ?_⟩
      rw [Option.toList_none, List.map_nil, List.append_nil]
      exact hscanning

/-- What comes without errors is nothing or a row, and other rows. -/
theorem toList_append_eq_map {found : Option (Except StoreError Row)}
    {others : List (Except StoreError Row)} {rows : List Row}
    (hfound : found.toList ++ others = rows.map .ok) :
    ∃ (row? : Option Row) (rest : List Row), rows = row?.toList ++ rest ∧
      found = row?.map .ok ∧ others = rest.map .ok := by
  cases found with
  | none => exact ⟨none, rows, rfl, rfl, hfound⟩
  | some result =>
      obtain ⟨row, rest, rfl, hrow, hrest⟩ := List.map_eq_cons_iff.mp hfound.symm
      exact ⟨some row, rest, rfl, congrArg some hrow.symm, hrest.symm⟩

/-- What a scan keeps among turns of others. -/
theorem Accounted.through (moments : List Moment)
    (haccounted : Accounted initial ledger store changed)
    (hsize : store.catalog.pageSize ≤ maxPageSize)
    (hscanning : Scanning least cursor done parts (store.plain changed))
    (hadmits : cursor.Admits store moments)
    (htransactional : ∀ turn, .turn turn ∈ moments → turn.operation.Transactional)
    {rows : List Row} (hthrough : cursor.through store moments = ((rows.map .ok, final), after)) :
    ∃ later still parts, Accounted initial later after still ∧ after.catalog = store.catalog ∧
      Scanning least final (done ++ rows.map Row.entry) parts (after.plain still) ∧
      final.transaction = cursor.transaction ∧ final.table = cursor.table ∧
      ∀ known, (store.plain changed).Covers cursor.transaction cursor.table known →
        (after.plain still).Covers cursor.transaction cursor.table known := by
  induction moments generalizing store changed ledger cursor done parts rows with
  | nil =>
      obtain ⟨hnone, rfl⟩ := Prod.mk.inj hthrough
      obtain ⟨hrows, rfl⟩ := Prod.mk.inj hnone
      obtain rfl := List.map_eq_nil_iff.mp hrows.symm
      exact ⟨ledger, changed, parts, haccounted, rfl, by rwa [List.map_nil, List.append_nil], rfl,
        rfl, fun _ hcovers => hcovers⟩
  | cons moment moments ih =>
      have hrest : ∀ turn, .turn turn ∈ moments → turn.operation.Transactional :=
        fun turn hturn => htransactional turn (List.mem_cons_of_mem _ hturn)
      cases moment with
      | turn turn =>
          obtain ⟨hsmall, hfits, hgoes, hchanges, hlater⟩ := hadmits
          obtain ⟨next, mid, event, hmid, hspares⟩ := haccounted.spares_turn hsmall hsize hfits
            (htransactional turn List.mem_cons_self) hgoes hchanges
          have hguarded := haccounted.guarded
          have hcatalog : (store.turn turn).2.catalog = store.catalog := hspares.catalog
          obtain ⟨later, still, parts, hafter, hsame, hscanned, hwho, hwhere, hkeeps⟩ :=
            ih hmid (by rwa [hcatalog]) (hscanning.spared hguarded hspares) hlater hrest hthrough
          exact ⟨later, still, parts, hafter, hsame.trans hcatalog, hscanned, hwho, hwhere,
            fun known hcovers => hkeeps known (hcovers.spared hguarded hspares)⟩
      | row =>
          obtain ⟨hsmall, hlater⟩ := hadmits
          simp only [Cursor.through] at hthrough
          obtain ⟨hwho, hwhere⟩ := Cursor.next_same cursor store
          revert hthrough hlater hwho hwhere
          cases hnext : cursor.next store with
          | mk result mid =>
              obtain ⟨found, reached⟩ := result
              simp only
              intro hthrough hlater hwho hwhere
              obtain ⟨hresult, rfl⟩ := Prod.mk.inj hthrough
              obtain ⟨hfound, rfl⟩ := Prod.mk.inj hresult
              obtain ⟨row?, others, rfl, rfl, hothers⟩ := toList_append_eq_map hfound
              obtain ⟨next, parts, hmid, hread, hscanned⟩ := haccounted.next hsmall hscanning hnext
              have hcatalog : mid.catalog = store.catalog := by
                obtain ⟨pool, rfl⟩ := hread.pool
                rfl
              obtain ⟨later, still, parts, hafter, hsame, hfinal, hlastWho, hlastWhere, hkeeps⟩ :=
                ih hmid (by rwa [hcatalog]) hscanned hlater hrest
                  (Prod.ext (Prod.ext hothers rfl) rfl)
              rw [hwho, hwhere] at hkeeps
              refine ⟨later, still, parts, hafter, hsame.trans hcatalog, ?_, hlastWho.trans hwho,
                hlastWhere.trans hwhere, fun known hcovers =>
                  hkeeps known (hcovers.spared haccounted.guarded hread.spares)⟩
              rwa [List.map_append, ← List.append_assoc]

/-- The rows of a scan that is over are all rows of its table. -/
theorem Scanning.done_eq {plain : PlainStore} (hscanning : Scanning least cursor done parts plain)
    (hclosed : cursor.isOpen = false) : done = parts.flatten := by
  have hrows := hscanning.rows
  rwa [hscanning.closed hclosed, List.map_nil, List.append_nil] at hrows

/-- Two scans of a table by one transaction, one after the other, give the same rows at the same
addresses, if the first one has come to a page, both come to their end without an error, and the
transaction neither ends nor changes the table meanwhile.  A turn is a whole call, and so is the
next row of a scan: others come between the rows, but not while a page is read or an insertion
looks for room.  The table has fewer pages than there are numbers for. -/
theorem scans_repeat {start mid last : Store} {table : Table} {rows again : List Row}
    {ended final : Cursor} {before : List Turn} {first second : List Moment}
    (hopened : Opened start) (hapart : start.catalog.Apart start.log.location)
    (hbefore : ∀ turn ∈ before, turn.operation.Transactional)
    (hfirst : ∀ turn, .turn turn ∈ first → turn.operation.Transactional)
    (hsecond : ∀ turn, .turn turn ∈ second → turn.operation.Transactional)
    (hregistered : start.catalog.table table.id = .ok table) (hadmits : start.Admits before)
    (hadmitsFirst : (Cursor.start table tid).Admits (start.follow before) first)
    (hscan : (Cursor.start table tid).through (start.follow before) first
      = ((rows.map .ok, ended), mid))
    (hended : ended.isOpen = false) (hpage : 0 < ended.nextPage)
    (hadmitsSecond : (Cursor.start table tid).Admits mid second)
    (hrescan : (Cursor.start table tid).through mid second = ((again.map .ok, final), last))
    (hfinal : final.isOpen = false) : again.map Row.entry = rows.map Row.entry := by
  have hsize := hopened.begun.size
  obtain ⟨-, -, hcatalog⟩ := coherent_follow before (hopened.fresh.coherent hapart) hsize hadmits
    fun turn hturn => (hbefore turn hturn).fixed
  obtain ⟨changed, haccounted⟩ :=
    (hopened.fresh.accounted hapart).follow before hadmits hbefore
  rw [← hcatalog] at hsize hregistered
  -- the first scan has locked all pages of the table
  obtain ⟨middle, still, parts, hmid, hsame, hscanned, hwho, hwhere, -⟩ :=
    haccounted.through first hsize (.start hregistered tid) hadmitsFirst hfirst hscan
  have hcovers := hscanned.covers hended (hscanned.position ▸ hpage)
  have hrows := hscanned.done_eq hended
  rw [hwho, hwhere] at hcovers
  rw [← hsame] at hsize hregistered
  -- the second one reads what these pages have
  obtain ⟨later, kept, others, hlast, -, hrescanned, hwho, hwhere, hkeeps⟩ :=
    hmid.through second hsize (.start hregistered tid) hadmitsSecond hsecond hrescan
  have hagain := hrescanned.done_eq hfinal
  have hstill := hkeeps parts hcovers
  have hsome : 0 < others.length :=
    Nat.lt_of_lt_of_le hcovers.first (Nat.le_trans hcovers.inFile (hrescanned.reached hfinal))
  have hall := hrescanned.covers hfinal hsome
  rw [hwho, hwhere] at hall
  have hsmall := hadmitsSecond.last
  rw [hrescan] at hsmall
  rw [List.nil_append] at hrows hagain
  rw [hrows, hagain]
  exact hall.flatten_eq hstill (hsmall.of_table hall.registered)

/-- A table of two pages.  One transaction scans it twice; another one takes the row of the second
page away before the scan comes to it, and a third one fails to insert. -/
theorem scans_repeat_sample :
    let before := [.step .begin, .step (.insert 1 sampleTable (sampleRow 7)),
      .step (.insert 1 sampleTable (sampleRow 8)), .step (.insert 1 sampleTable (sampleRow 9)),
      .step (.insert 1 sampleTable (sampleRow 10)),
      .commit 1 [⟨sampleTable, 1⟩, ⟨sampleTable, 0⟩], .step .begin, .step .begin, .step .begin]
    let first := [.row, .turn (.step (.delete 3 (sampleRowAt 10 1 0))), .row,
      .turn (.commit 3 [⟨sampleTable, 1⟩]), .row, .row,
      .turn (.step (.insert 4 sampleTable (sampleRow 11)))]
    let second := [.row, .row, .turn (.step (.abort 4)), .row, .row]
    let one := (Cursor.start sampleHeap 2).through (sample.follow before) first
    let two := (Cursor.start sampleHeap 2).through one.2 second
    ∃ rows again : List Row, one.1.1 = rows.map .ok ∧ two.1.1 = again.map .ok ∧ rows.length = 3 ∧
      again.map Row.entry = rows.map Row.entry := by
  intro before first second one two
  let rows := [sampleRowAt 7 0 0, sampleRowAt 8 0 1, sampleRowAt 9 0 2]
  have hone : one.1.1 = rows.map .ok := by decide +kernel
  have htwo : two.1.1 = rows.map .ok := by decide +kernel
  have hbefore : ∀ turn ∈ before, turn.operation.Transactional := by
    simp [before, Turn.operation, Operation.Transactional, valid_sampleRow]
  have hfirst : ∀ turn, .turn turn ∈ first → turn.operation.Transactional := by
    simp [first, Turn.operation, Operation.Transactional, valid_sampleRow]
  have hsecond : ∀ turn, .turn turn ∈ second → turn.operation.Transactional := by
    simp [second, Turn.operation, Operation.Transactional]
  exact ⟨rows, rows, hone, htwo, rfl, scans_repeat opened_sample (by decide +kernel) hbefore hfirst
    hsecond (by decide +kernel) (by decide +kernel) (by decide +kernel)
    (Prod.ext (Prod.ext hone rfl) rfl) (by decide +kernel) (by decide +kernel)
    (by decide +kernel) (Prod.ext (Prod.ext htwo rfl) rfl) (by decide +kernel)⟩

/-- A scan of a table without pages locks nothing: what another transaction inserts and commits
afterwards, a second scan by the same transaction gives. -/
theorem empty_scan_not_repeated :
    ∃ (start mid last : Store) (table : Table) (tid : TransactionId) (before : List Turn)
      (first second : List Moment) (ended final : Cursor) (rows again : List Row),
      Opened start ∧ start.catalog.Apart start.log.location ∧
      (∀ turn ∈ before, turn.operation.Transactional) ∧
      (∀ turn, .turn turn ∈ first → turn.operation.Transactional) ∧
      (∀ turn, .turn turn ∈ second → turn.operation.Transactional) ∧
      start.catalog.table table.id = .ok table ∧ start.Admits before ∧
      (Cursor.start table tid).Admits (start.follow before) first ∧
      (Cursor.start table tid).through (start.follow before) first
        = ((rows.map .ok, ended), mid) ∧
      ended.isOpen = false ∧ (Cursor.start table tid).Admits mid second ∧
      (Cursor.start table tid).through mid second = ((again.map .ok, final), last) ∧
      final.isOpen = false ∧ again.map Row.entry ≠ rows.map Row.entry := by
  let before : List Turn := [.step .begin, .step .begin]
  let first : List Moment := [.row, .turn (.step (.insert 2 sampleTable (sampleRow 7))),
    .turn (.step (.commit 2))]
  let second : List Moment := [.row, .row]
  let one := (Cursor.start sampleHeap 1).through (sample.follow before) first
  let two := (Cursor.start sampleHeap 1).through one.2 second
  have hone : one.1.1 = ([] : List Row).map .ok := by decide +kernel
  have htwo : two.1.1 = [sampleRowAt 7 0 0].map .ok := by decide +kernel
  refine ⟨sample, one.2, two.2, sampleHeap, 1, before, first, second, one.1.2, two.1.2, [],
    [sampleRowAt 7 0 0], opened_sample, by decide +kernel, ?_, ?_, ?_, by decide +kernel,
    by decide +kernel, by decide +kernel, Prod.ext (Prod.ext hone rfl) rfl, by decide +kernel,
    by decide +kernel, Prod.ext (Prod.ext htwo rfl) rfl, by decide +kernel, by simp⟩
  · simp [before, Turn.operation, Operation.Transactional]
  · simp [first, Turn.operation, Operation.Transactional, valid_sampleRow]
  · simp [second]

/-! ## A table that gets too long -/

/-- A scan of a brimful table gives the rows of all its pages, and the table is brimful still. -/
theorem brimful_scan (hcoherent : Coherent store changed)
    (hsmall : store.catalog.Small store.disk) {table : Table}
    (hbrimful : (store.plain changed).Brimful tid table) {page : Page}
    (hpage : (store.plain changed).page ⟨table.id, 0⟩ = .ok page) :
    ∃ (count : Nat) (rows : List Row) (ended : Cursor) (mid : Store) (still : List Page)
      (locks : LockTable),
      (Cursor.start table tid).through store (List.replicate count .row)
          = ((rows.map .ok, ended), mid) ∧
        ended.isOpen = false ∧ 0 < ended.nextPage ∧
        page.rows.map Row.entry <+: rows.map Row.entry ∧ Coherent mid still ∧
        mid.plain still = (store.plain changed).withLocks locks ∧
        (mid.plain still).Brimful tid table := by
  obtain ⟨found, locks, hscan, hstill, hfirst⟩ := hbrimful.scanPages
  obtain ⟨hentries, still, hmid, hplain⟩ :=
    scanPages_agree hcoherent hsmall tid table (store.pageCount table).toNat 0
  rw [show PlainStore.scanPages tid table (store.pageCount table).toNat 0 (store.plain changed)
    = (found.map .ok, (store.plain changed).withLocks locks) from hscan] at hentries hplain
  obtain ⟨rows, hrows, hsame⟩ := eq_map_of_entries hentries
  -- the pages are those that a cursor reads
  obtain ⟨count, hthrough⟩ := Cursor.rest_through (Cursor.start table tid) store
  obtain ⟨hrest, hafter⟩ := rest_eq (Cursor.start table tid) store rfl
  have hgiven : ((Cursor.start table tid).rest store).1.1 = rows.map .ok := hrest.trans hrows
  have hopen : (Cursor.start table tid).isOpen = true := rfl
  have hposition : 0 < ((Cursor.start table tid).rest store).1.2.nextPage := by
    apply Cursor.nextPage_lt_rest hopen
    · exact hbrimful.pageCount_pos
    · rw [hgiven]
      simp
  refine ⟨count + 1, rows, ((Cursor.start table tid).rest store).1.2,
    ((Cursor.start table tid).rest store).2, still, locks, ?_, Cursor.isOpen_rest _ _, hposition,
    ?_, ?_, ?_, ?_⟩
  · rw [← hthrough, ← hgiven]
  · rw [hsame]
    exact (hfirst page hpage).map Row.entry
  · rw [hafter]
    exact hmid
  · rw [hafter]
    exact hplain.symm
  · rw [hafter]
    exact hplain ▸ hstill

/-- A transaction scans a brimful table, an insertion of its own fails, and a second scan comes to
its end without a page. -/
theorem brimful_rescan (hcoherent : Coherent store changed)
    (hsmall : store.catalog.Small store.disk) {table : Table}
    (hbrimful : (store.plain changed).Brimful tid table) {row : Row} (hvalid : row.Valid)
    (hcompatible : row.schema.compatible table.schema = true) :
    ∃ (error : StoreError) (final : Cursor) (last : Store),
      let insert := Turn.step (.insert tid table.id row)
      (store.turn insert).1 = .error error ∧
        (Cursor.start table tid).through store [.turn insert, .row] = (([], final), last) ∧
        final.isOpen = false := by
  obtain ⟨error, after, still, hinsert, -, hnone, -⟩ :=
    brimful_insert hcoherent hsmall hbrimful hvalid hcompatible
  have hend : ¬ (Cursor.start table tid).nextPage < (after.pageCount table).toNat := by
    rw [hnone]
    exact Nat.not_lt_zero 0
  have hnext : (Cursor.start table tid).next after
      = ((none, (Cursor.start table tid).close), after) := by
    have hopen : (Cursor.start table tid).isOpen = true := rfl
    exact Cursor.next_of_end hopen hend
  refine ⟨error, (Cursor.start table tid).close, after, congrArg Prod.fst hinsert, ?_, rfl⟩
  simp only [Cursor.through, hinsert, hnext]
  rfl

/-- The transaction that fills the table scans it, and then inserts once more. -/
theorem LastRoom.rescan {count : Nat} (hcoherent : Coherent store [])
    (hsmall : store.catalog.Small store.disk) (hlastRoom : LastRoom (store.plain []) count) :
    ∃ (length : Nat) (rows : List Row) (error : StoreError) (ended final : Cursor)
      (mid last : Store),
      let cursor := Cursor.start outgrownTable 1
      let first := List.replicate length Moment.row
      let insert := Turn.step (.insert 1 outgrownTable.id (sampleRow 8))
      store.Admits fillingTurns ∧ cursor.Admits (store.follow fillingTurns) first ∧
        cursor.through (store.follow fillingTurns) first = ((rows.map .ok, ended), mid) ∧
        ended.isOpen = false ∧ 0 < ended.nextPage ∧ (mid.turn insert).1 = .error error ∧
        cursor.through mid [.turn insert, .row] = (([], final), last) ∧ final.isOpen = false ∧
        rows ≠ [] := by
  obtain ⟨hadmits, -, still, hfilled, hbrimful, hpage, -⟩ :=
    hlastRoom.follow hcoherent hsmall
  obtain ⟨length, rows, ended, mid, later, locks, hthrough, hended, hposition, hfirst, hmid, hplain,
    hstill⟩ := brimful_scan hfilled hadmits.last hbrimful hpage
  have hmiddle : mid.catalog.Small mid.disk := small_of_plain hplain hadmits.last
  obtain ⟨error, final, last, hfailed, hrescan, hfinal⟩ :=
    brimful_rescan hmid hmiddle hstill (valid_sampleRow 8) (by decide +kernel)
  refine ⟨length, rows, error, ended, final, mid, last, hadmits,
    Cursor.admits_rows length hadmits.last, hthrough, hended, hposition, hfailed, hrescan, hfinal,
    ?_⟩
  rintro rfl
  have hrow : filledPage.rows.map Row.entry ≠ [] := by decide +kernel
  exact hrow (List.prefix_nil.mp hfirst)

/-- A transaction fills a table for which one page number is left and scans it.  Then an insertion
of its own fails, but makes the table so long that its pages are counted as none: a second scan
gives nothing. -/
theorem full_scan_not_repeated :
    ∃ (start mid last : Store) (table : Table) (tid : TransactionId) (before : List Turn)
      (first : List Moment) (row : Row) (error : StoreError) (ended final : Cursor)
      (rows : List Row),
      let insert := Turn.step (.insert tid table.id row)
      Opened start ∧ start.catalog.Apart start.log.location ∧
      (∀ turn ∈ before, turn.operation.Transactional) ∧ (∀ moment ∈ first, moment = .row) ∧
      insert.operation.Transactional ∧ start.catalog.table table.id = .ok table ∧
      start.Admits before ∧ (Cursor.start table tid).Admits (start.follow before) first ∧
      (Cursor.start table tid).through (start.follow before) first
        = ((rows.map .ok, ended), mid) ∧
      ended.isOpen = false ∧ 0 < ended.nextPage ∧ (mid.turn insert).1 = .error error ∧
      (Cursor.start table tid).through mid [.turn insert, .row] = (([], final), last) ∧
      final.isOpen = false ∧ rows ≠ [] := by
  have hcoherent := opened_lastRoom.fresh.coherent (by decide +kernel)
  obtain ⟨length, rows, error, ended, final, mid, last, hrescan⟩ :=
    plain_lastRoom.rescan hcoherent small_lastRoom
  refine ⟨lastRoom, mid, last, outgrownTable, 1, fillingTurns, List.replicate length .row,
    sampleRow 8, error, ended, final, rows, opened_lastRoom, by decide +kernel, ?_, ?_,
    valid_sampleRow 8, by decide +kernel, hrescan⟩
  · simp [fillingTurns, Turn.operation, Operation.Transactional, valid_sampleRow]
  · exact fun moment hmoment => List.eq_of_mem_replicate hmoment

end Store

end HeapStore
