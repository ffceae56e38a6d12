import HeapStore.Proofs.Cursors

/-!
# Eviction cannot be observed

A run with evictions and the run without them do the same: every other operation gives the same
answer in both, every cursor the same rows, and disk, log, locks and changed pages are the same
after them (`evict_unobservable`).  Both runs are followed on the plain store, where an eviction
does nothing.

The operations are those on a fixed catalog; table files stay below the limit of 32 bits, and the
log has a file of its own.  Cursors may go on at any points of a run, so that evictions come between
the rows of a page as well.

Rows are compared by address and fields.  The column names under which a row was built are not in
its page, and last only until the page leaves the cache: an eviction does show in them
(`evict_renames`).
-/

namespace HeapStore

namespace Store

/-- The stores differ at most in which clean pages are cached. -/
structure Alike (a b : Store) : Prop where
  disk : a.disk = b.disk
  armed : a.armed = b.armed
  log : a.log = b.log
  catalog : a.catalog = b.catalog
  locks : a.pool.locks = b.pool.locks
  nextTransaction : a.nextTransaction = b.nextTransaction
  dirty : ∀ tid, a.pool.dirtiedBy tid = b.pool.dirtiedBy tid

variable {store other : Store} {changed still : List Page}

/-- A store that was just opened is coherent, if no table file is the log. -/
theorem Fresh.coherent (hfresh : store.Fresh)
    (hapart : store.catalog.Apart store.log.location) : Coherent store [] := by
  refine ⟨hfresh.sound.pool, ⟨hfresh.catalog, hapart, List.nodup_nil, ?_⟩, ?_, ?_⟩
  · intro page hpage
    exact absurd hpage List.not_mem_nil
  · intro frame hframe
    rw [hfresh.resident] at hframe
    exact absurd hframe List.not_mem_nil
  · intro page hpage
    exact absurd hpage List.not_mem_nil

/-- Coherent stores with one plain store are alike. -/
theorem alike_of_plain (hstore : Coherent store changed) (hother : Coherent other still)
    (hplain : store.plain changed = other.plain still) : store.Alike other := by
  have hdirty : ∀ tid, store.pool.dirtiedBy tid = other.pool.dirtiedBy tid := by
    intro tid
    rw [← hstore.dirtiedBy_eq, ← hother.dirtiedBy_eq, hplain]
  simp only [plain, PlainStore.mk.injEq] at hplain
  obtain ⟨hdisk, harmed, hlog, hcatalog, -, -, hlocks, hnext⟩ := hplain
  exact ⟨hdisk, harmed, hlog, hcatalog, hlocks, hnext, hdirty⟩

/-- The stores have one plain store: cache and files agree in both, and they differ at most in which
clean pages are cached. -/
def Twins (store other : Store) : Prop :=
  ∃ changed still, Coherent store changed ∧ Coherent other still ∧
    store.plain changed = other.plain still

namespace Twins

theorem alike (htwins : Twins store other) : store.Alike other := by
  obtain ⟨changed, still, hstore, hother, hplain⟩ := htwins
  exact alike_of_plain hstore hother hplain

theorem small (htwins : Twins store other) (hsmall : store.catalog.Small store.disk) :
    other.catalog.Small other.disk := by
  obtain ⟨changed, still, -, -, hplain⟩ := htwins
  exact small_of_plain hplain.symm hsmall

theorem pageCount (htwins : Twins store other) (table : Table) :
    other.pageCount table = store.pageCount table := by
  simp only [Store.pageCount, tableContent, htwins.alike.disk]

/-- An eviction in one of the stores leaves them as they are to each other. -/
theorem evict (htwins : Twins store other) (hsmall : store.catalog.Small store.disk) {turn : Turn}
    (hfixed : turn.operation.Fixed) (hevict : turn.operation.isEvict = true) :
    Twins (store.turn turn).2 other := by
  obtain ⟨changed, still, hstore, hother, hplain⟩ := htwins
  obtain ⟨-, later, hafter, hnext⟩ := turn_agree hstore hsmall hfixed
  refine ⟨later, still, hafter, hother, ?_⟩
  rw [← hnext, ← hplain]
  cases turn with
  | commit tid order => exact absurd hevict (by simp [Turn.operation, Operation.isEvict])
  | step operation =>
      cases operation with
      | evict latched => rfl
      | _ => exact absurd hevict (by simp [Turn.operation, Operation.isEvict])

/-- Every other turn gives the same answer in both stores. -/
theorem turn (htwins : Twins store other) (hsmall : store.catalog.Small store.disk) {turn : Turn}
    (hfixed : turn.operation.Fixed) (hevict : turn.operation.isEvict = false) :
    (store.turn turn).1 = (other.turn turn).1 ∧ Twins (store.turn turn).2 (other.turn turn).2 := by
  have hsmall' := htwins.small hsmall
  obtain ⟨changed, still, hstore, hother, hplain⟩ := htwins
  obtain ⟨hanswer, later, hafter, hnext⟩ := turn_agree hstore hsmall hfixed
  obtain ⟨hanswer', later', hafter', hnext'⟩ := turn_agree hother hsmall' hfixed
  refine ⟨?_, later, later', hafter, hafter', ?_⟩
  · rw [hanswer hevict, hanswer' hevict, hplain]
  · rw [← hnext, ← hnext', hplain]

end Twins

/-! ## Rows of cursors -/

/-- The rows of a page are those of the plain store, by address and fields. -/
theorem pageRows_agree (hcoherent : Coherent store changed)
    (hsmall : store.catalog.Small store.disk) (cursor : Cursor) (number : Nat) :
    Agree (fun rows _ page => rows.map Row.entry = page.rows.map Row.entry)
      ((cursor.pageRows number).perform store)
      ((store.plain changed).getPage cursor.transaction
        ⟨cursor.table.id, UInt32.ofNat number⟩ .readOnly) := by
  have hagree := getPage_agree hcoherent cursor.transaction
    ⟨cursor.table.id, UInt32.ofNat number⟩ .readOnly (Or.inl hsmall)
  rw [perform_pageRows]
  revert hagree
  generalize (getPage cursor.transaction ⟨cursor.table.id, UInt32.ofNat number⟩ .readOnly
    []).perform store = real
  generalize (store.plain changed).getPage cursor.transaction
    ⟨cursor.table.id, UInt32.ofNat number⟩ .readOnly = outcome
  intro hagree
  cases hagree with
  | error hafter => exact .error hafter
  | @ok frame _ _ _ hafter hshows =>
      obtain ⟨-, rfl⟩ := hshows
      exact .ok hafter (entries_rows_normal frame.page).symm

/-- A page that a cursor reads gives the same error in both stores, or rows with the same
entries. -/
theorem Twins.pageRows (htwins : Twins store other) (hsmall : store.catalog.Small store.disk)
    (cursor : Cursor) (number : Nat) :
    ((cursor.pageRows number).perform store).1.map (·.map Row.entry)
        = ((cursor.pageRows number).perform other).1.map (·.map Row.entry) ∧
      Twins ((cursor.pageRows number).perform store).2
        ((cursor.pageRows number).perform other).2 := by
  have hsmall' := htwins.small hsmall
  obtain ⟨changed, still, hstore, hother, hplain⟩ := htwins
  have hreal := pageRows_agree hstore hsmall cursor number
  have htwin := pageRows_agree hother hsmall' cursor number
  rw [← hplain] at htwin
  revert hreal htwin
  generalize (cursor.pageRows number).perform store = real
  generalize (cursor.pageRows number).perform other = twin
  rcases (store.plain changed).getPage cursor.transaction
    ⟨cursor.table.id, UInt32.ofNat number⟩ .readOnly with ⟨result, last⟩
  intro hreal htwin
  generalize hlast : last = reached at htwin
  cases hreal with
  | error hafter =>
      cases htwin with
      | error hafter' => exact ⟨rfl, _, _, hafter, hafter', hlast⟩
  | ok hafter hrows =>
      cases htwin with
      | ok hafter' hrows' =>
          exact ⟨congrArg Except.ok (hrows.trans hrows'.symm), _, _, hafter, hafter', hlast⟩

/-- Cursors at one place give the same next row in both stores, or the same error. -/
theorem Twins.next (htwins : Twins store other) (hsmall : store.catalog.Small store.disk)
    {cursor twin : Cursor} (halike : cursor.Alike twin) :
    (cursor.next store).1.1.map (·.map Row.entry)
        = (twin.next other).1.1.map (·.map Row.entry) ∧
      (cursor.next store).1.2.Alike (twin.next other).1.2 ∧
      Twins (cursor.next store).2 (twin.next other).2 := by
  fun_induction Cursor.next cursor store generalizing twin other with
  | case1 cursor store hopen row rest hpending =>
      obtain ⟨pending, rfl, hentries⟩ := halike.shape
      rw [hpending] at hentries
      obtain ⟨row', rest', rfl, hrow, hrest⟩ := List.map_eq_cons_iff.mp hentries
      rw [Cursor.next_of_row hopen]
      refine ⟨?_, ⟨rfl, rfl, rfl, rfl, hrest⟩, htwins⟩
      show some (Except.ok row.entry) = some (Except.ok row'.entry)
      rw [hrow]
  | case2 cursor store hopen hpending hmore rows after hrows ih =>
      obtain rfl := halike.eq_of_nil hpending
      obtain ⟨hpage, hafter⟩ := htwins.pageRows hsmall cursor cursor.nextPage
      rw [hrows] at hpage hafter
      rcases hread : (cursor.pageRows cursor.nextPage).perform other with ⟨result, last⟩
      rw [hread] at hpage hafter
      cases result with
      | error error => exact absurd hpage (by simp [Except.map])
      | ok rows' =>
          rw [Cursor.next_of_rows hopen (by rwa [htwins.pageCount]) hread]
          obtain ⟨pool, hpool⟩ := cursor.pageRows_withPool cursor.nextPage store
          rw [hrows] at hpool
          obtain rfl : after = store.withPool pool := hpool
          exact ih hafter hsmall ⟨rfl, rfl, rfl, rfl, (Except.ok.inj hpage).symm⟩
  | case3 cursor store hopen hpending hmore error after hrows =>
      obtain rfl := halike.eq_of_nil hpending
      obtain ⟨hpage, hafter⟩ := htwins.pageRows hsmall cursor cursor.nextPage
      rw [hrows] at hpage hafter
      rcases hread : (cursor.pageRows cursor.nextPage).perform other with ⟨result, last⟩
      rw [hread] at hpage hafter
      cases result with
      | ok rows' => exact absurd hpage (by simp [Except.map])
      | error error' =>
          obtain rfl := Except.error.inj hpage
          rw [Cursor.next_of_error hopen (by rwa [htwins.pageCount]) hread]
          exact ⟨rfl, .refl _, hafter⟩
  | case4 cursor store hopen hpending hend =>
      obtain rfl := halike.eq_of_nil hpending
      rw [Cursor.next_of_end hopen (by rwa [htwins.pageCount])]
      exact ⟨rfl, .refl _, htwins⟩
  | case5 cursor store hclosed =>
      rw [Cursor.next_of_closed (by rwa [halike.isOpen])]
      exact ⟨rfl, halike, htwins⟩

end Store

/-! ## Runs with cursors -/

/-- A turn of some transaction, or the next row of one of some scans. -/
inductive Visit where
  | turn (turn : Turn)
  | row (scan : Nat)

/-- The visit evicts a page. -/
def Visit.isEvict : Visit → Bool
  | .turn call => call.operation.isEvict
  | .row _ => false

/-- What a caller sees of a visit; a row by its address and its fields. -/
inductive Sight where
  | answer (answer : Except StoreError Answer)
  | row (found : Option (Except StoreError (Option RecordAddress × List Field)))
  deriving DecidableEq

/-- A store with scans that are going on. -/
structure Scans where
  store : Store
  cursors : Nat → Cursor

namespace Scans

/-- What a caller sees of a visit, with store and cursors after it. -/
def visit (scans : Scans) : Visit → Sight × Scans
  | .turn turn =>
    (.answer (scans.store.turn turn).1, { scans with store := (scans.store.turn turn).2 })
  | .row scan =>
    let next := (scans.cursors scan).next scans.store
    (.row (next.1.1.map (·.map Row.entry)),
      ⟨next.2, fun other => if other = scan then next.1.2 else scans.cursors other⟩)

/-- Store and cursors after some visits. -/
def after (scans : Scans) (visits : List Visit) : Scans :=
  visits.foldl (fun scans visit => (scans.visit visit).2) scans

/-- Some visits, each with what its caller sees. -/
def seen (scans : Scans) : List Visit → List (Visit × Sight)
  | [] => []
  | visit :: visits => (visit, (scans.visit visit).1) :: (scans.visit visit).2.seen visits

/-- The table files stay below the limit of 32 bits in a run. -/
def StaySmall (scans : Scans) : List Visit → Prop
  | [] => scans.store.catalog.Small scans.store.disk
  | visit :: visits =>
    scans.store.catalog.Small scans.store.disk ∧ (scans.visit visit).2.StaySmall visits

instance decidableStaySmall (scans : Scans) (visits : List Visit) :
    Decidable (scans.StaySmall visits) :=
  match visits with
  | [] => inferInstanceAs (Decidable (scans.store.catalog.Small scans.store.disk))
  | visit :: rest =>
    let _ := decidableStaySmall (scans.visit visit).2 rest
    inferInstanceAs (Decidable (_ ∧ _))

/-- The stores differ at most in which clean pages are cached, and the scans are at the same places
with the same rows left. -/
structure Alike (scans others : Scans) : Prop where
  store : scans.store.Alike others.store
  cursors : ∀ scan, (scans.cursors scan).Alike (others.cursors scan)

variable {scans others : Scans} {visits : List Visit}

theorem StaySmall.head (hsmall : scans.StaySmall visits) :
    scans.store.catalog.Small scans.store.disk := by
  cases visits with
  | nil => exact hsmall
  | cons visit visits => exact hsmall.1

/-- A visit that evicts no page gives the same to see in twin stores, and leaves twins behind. -/
theorem visit_alike (htwins : scans.store.Twins others.store)
    (hcursors : ∀ scan, (scans.cursors scan).Alike (others.cursors scan))
    (hsmall : scans.store.catalog.Small scans.store.disk) {visit : Visit}
    (hfixed : ∀ turn, visit = .turn turn → turn.operation.Fixed) (hevict : visit.isEvict = false) :
    (scans.visit visit).1 = (others.visit visit).1 ∧
      (scans.visit visit).2.store.Twins (others.visit visit).2.store ∧
      ∀ scan, ((scans.visit visit).2.cursors scan).Alike ((others.visit visit).2.cursors scan) := by
  cases visit with
  | turn turn =>
      obtain ⟨hanswer, hafter⟩ := htwins.turn hsmall (hfixed turn rfl) hevict
      exact ⟨congrArg Sight.answer hanswer, hafter, hcursors⟩
  | row scan =>
      obtain ⟨hrow, hmoved, hafter⟩ := htwins.next hsmall (hcursors scan)
      refine ⟨congrArg Sight.row hrow, hafter, ?_⟩
      intro other
      simp only [Scans.visit]
      split
      · exact hmoved
      · exact hcursors other

/-- A run with evictions on one store and without them on its twin. -/
theorem after_alike (visits : List Visit) (htwins : scans.store.Twins others.store)
    (hcursors : ∀ scan, (scans.cursors scan).Alike (others.cursors scan))
    (hsmall : scans.StaySmall visits)
    (hfixed : ∀ turn, .turn turn ∈ visits → turn.operation.Fixed) :
    (scans.seen visits).filter (fun entry => !entry.1.isEvict)
        = others.seen (visits.filter fun visit => !visit.isEvict) ∧
      (scans.after visits).Alike (others.after (visits.filter fun visit => !visit.isEvict)) := by
  induction visits generalizing scans others with
  | nil => exact ⟨rfl, htwins.alike, hcursors⟩
  | cons visit visits ih =>
      have hfirst : ∀ turn, visit = .turn turn → turn.operation.Fixed := by
        rintro turn rfl
        exact hfixed turn List.mem_cons_self
      have hrest := fun turn hturn => hfixed turn (List.mem_cons_of_mem visit hturn)
      cases hevict : visit.isEvict with
      | true =>
          -- only the store with the eviction goes on
          cases visit with
          | row scan => exact absurd hevict (by simp [Visit.isEvict])
          | turn turn =>
              have hafter : (scans.visit (.turn turn)).2.store.Twins others.store :=
                htwins.evict hsmall.head (hfirst turn rfl) hevict
              have hrun := ih hafter hcursors hsmall.2 hrest
              simpa [seen, after, hevict] using hrun
      | false =>
          obtain ⟨hsight, hafter, hmoved⟩ :=
            visit_alike htwins hcursors hsmall.head hfirst hevict
          obtain ⟨hseen, hlast⟩ := ih hafter hmoved hsmall.2 hrest
          have hkeep : (visit :: visits).filter (fun visit => !visit.isEvict)
              = visit :: visits.filter fun visit => !visit.isEvict := by
            simp [hevict]
          rw [hkeep]
          refine ⟨?_, hlast⟩
          simp only [seen, List.filter_cons, hevict, Bool.not_false, if_true, hsight, hseen]

end Scans

namespace Store

/-- Evictions at any points of a run, also between the rows that cursors give, change no answer of
another operation, no row of a cursor, no file, no log record and no lock, and no page that was
changed.  Rows are compared by their addresses and fields (`Row.entry`), not by the column names
under which they were built, and pages by the column names of their table (`Page.normal`). -/
theorem evict_unobservable {scans : Scans} (hopened : Opened scans.store)
    (hapart : scans.store.catalog.Apart scans.store.log.location) (visits : List Visit)
    (hfixed : ∀ turn, .turn turn ∈ visits → turn.operation.Fixed)
    (hsmall : scans.StaySmall visits) :
    (scans.seen visits).filter (fun entry => !entry.1.isEvict)
        = scans.seen (visits.filter fun visit => !visit.isEvict) ∧
      (scans.after visits).Alike (scans.after (visits.filter fun visit => !visit.isEvict)) := by
  have hcoherent := hopened.fresh.coherent hapart
  exact Scans.after_alike visits ⟨[], [], hcoherent, hcoherent, rfl⟩ (fun _ => .refl _) hsmall
    hfixed

/-- A row that is inserted stays changed while its page cannot leave.  Two scans go on between
evictions, one of them from a page that was evicted after it had read it. -/
theorem evict_unobservable_sample :
    let scans : Scans := ⟨sample, fun scan => .start sampleHeap (UInt64.ofNat (scan + 2))⟩
    let visits := [.turn (.step .begin), .turn (.step (.evict [])),
      .turn (.step (.insert 1 sampleTable (sampleRow 7))),
      .turn (.step (.insert 1 sampleTable (sampleRow 8))), .turn (.step (.evict [])),
      .turn (.commit 1 [⟨sampleTable, 0⟩]), .turn (.step .begin), .turn (.step .begin), .row 0,
      .turn (.step (.evict [])), .row 1, .row 0, .turn (.step (.evict [])), .row 1, .row 0,
      .turn (.step (.getPage 2 ⟨sampleTable, 0⟩ .readOnly []))]
    (scans.seen visits).filter (fun entry => !entry.1.isEvict)
        = scans.seen (visits.filter fun visit => !visit.isEvict) ∧
      (scans.after visits).Alike (scans.after (visits.filter fun visit => !visit.isEvict)) :=
  evict_unobservable opened_sample (by decide +kernel) _
    (by simp [Turn.operation, Operation.Fixed, valid_sampleRow]) (by decide +kernel)

/-- The column names of a row do change: as long as the page is cached they are those of the row
that was inserted, and after an eviction those of the table. -/
theorem evict_renames :
    let row : Row := ⟨⟨[⟨.int, "other"⟩]⟩, [.int 7], none⟩
    let before := [.begin, .insert 1 sampleTable row, .commit 1]
    let cached := ((Cursor.start sampleHeap 2).next (sample.run before)).1.1
    let evicted := ((Cursor.start sampleHeap 2).next (sample.run (before ++ [.evict []]))).1.1
    row.Valid ∧ cached ≠ evicted ∧
      cached.map (·.map Row.entry) = evicted.map (·.map Row.entry) := by
  refine ⟨⟨rfl, rfl⟩, ?_, ?_⟩
  · decide +kernel
  · decide +kernel

end Store

end HeapStore
