import HeapStore.Proofs.Ending
import HeapStore.Proofs.Eviction

/-!
# Files hold what was committed

The operations of a run and their answers make a `Ledger`: an insert that succeeds puts a row at
the address it gives back, a delete that succeeds takes one away, a commit that succeeds makes the
changes of its transaction count, and every other end of a transaction drops them.
`files_hold_committed` says that after every run of transactions, in whatever order their
operations come and their commits flush, the rows in the table files are the rows from the start
with the committed changes, in the order of the commits.

A transaction that reads its tables row by row gets pages as `Operation.getPage` does, so the runs
here are also those in which scans stop between pages.
-/

namespace HeapStore

/-- What an operation with this answer means for the transactions. -/
def Event.of : Operation → Except StoreError Answer → Event
  | .insert tid _ _, .ok (.row stored) =>
    match stored.address with
    | some place => .edited tid ⟨place, some stored.fields⟩
    | none => .quiet
  | .delete tid row, .ok _ =>
    match row.address with
    | some place => .edited tid ⟨place, none⟩
    | none => .quiet
  | .commit tid, .ok _ => .committed tid
  | .commit tid, .error _ => .dropped tid
  | .abort tid, _ => .dropped tid
  | .abandon tid, _ => .dropped tid
  | _, _ => .quiet

/-- The operations of transactions, with evictions and failpoints.  A row that is inserted was
built for its schema. -/
def Operation.Transactional : Operation → Prop
  | .begin => True
  | .getPage _ _ _ latched => latched = []
  | .insert _ _ row => row.Valid
  | .delete _ _ => True
  | .scan _ _ => True
  | .commit _ => True
  | .abort _ => True
  | .abandon _ => True
  | .evict _ => True
  | .enable _ => True
  | .disable _ => True
  | .disarm => True
  | _ => False

theorem Operation.Transactional.fixed {operation : Operation}
    (htransactional : operation.Transactional) : operation.Fixed := by
  cases operation with
  | getPage tid address access latched => exact htransactional
  | insert tid table row => exact htransactional
  | openTable path name schema primaryKey pageSize => exact htransactional
  | loadSchema path => exact htransactional
  | clearCatalog => exact htransactional
  | _ => exact trivial

/-- The ledger after operations with their answers. -/
def Ledger.noteAll (ledger : Ledger) (entries : List (Operation × Except StoreError Answer)) :
    Ledger :=
  entries.foldl (fun ledger entry => ledger.note (Event.of entry.1 entry.2)) ledger

/-! ## One step -/

namespace PlainStore

variable {plain : PlainStore}

/-- One step of a transaction does what its answer says, to its own changes only. -/
theorem conducts_step (hguarded : plain.Guarded) (hsound : plain.Sound)
    (hsmall : plain.catalog.Small plain.disk) {operation : Operation}
    (htransactional : operation.Transactional) :
    plain.Conducts (Event.of operation (plain.step operation).1) (plain.step operation).2 := by
  have hstays := (Kept.refl hguarded).conducts
  -- what is not in a table, a lock or a changed page does not matter
  have hquiet : ∀ after : PlainStore, after.standing = plain.standing → after.locks = plain.locks →
      plain.Conducts .quiet after := by
    intro after hstanding hlocks
    refine ⟨⟨by rw [hlocks]; exact hguarded.locks, ?_⟩, ?_, ?_⟩
    · intro address tid howned
      rw [hlocks]
      apply hguarded.owned address tid
      have hsame := congrArg (fun standing => standing.owner address) hstanding
      exact hsame.symm.trans howned
    · rw [hstanding]
      exact .quiet _
    · intro address who _ hheld
      rw [hlocks]
      exact hheld
  cases operation with
  | begin => exact hquiet _ rfl rfl
  | getPage tid address access latched =>
      exact (kept_getPage hguarded tid address access).conducts
  | insert tid id row =>
      rcases conducts_insertRow hguarded hsound hsmall tid id row with
        ⟨error, hresult, hconducts⟩ | ⟨stored, place, hresult, haddress, hconducts⟩
      · simp only [step, Outcome.answering, hresult, Except.map]
        exact hconducts
      · simp only [step, Outcome.answering, hresult, Except.map, Event.of, haddress]
        exact hconducts
  | delete tid row =>
      rcases conducts_deleteRow hguarded tid row with
        ⟨error, hresult, hconducts⟩ | ⟨place, hresult, haddress, hconducts⟩
      · simp only [step, Outcome.answering, hresult, Except.map]
        exact hconducts
      · simp only [step, Outcome.answering, hresult, Except.map, Event.of, haddress]
        exact hconducts
  | scan tid id =>
      simp only [step]
      cases plain.catalog.table id with
      | error error => exact hstays
      | ok table => exact (kept_scanPages hguarded tid table _ 0).conducts
  | commit tid =>
      rcases conducts_commit hguarded hsound hsmall tid with
        ⟨hresult, hconducts⟩ | ⟨⟨error, hresult⟩, hconducts⟩
      · simp only [step, Outcome.answering, hresult, Except.map]
        exact hconducts
      · simp only [step, Outcome.answering, hresult, Except.map]
        exact hconducts
  | abort tid => exact conducts_abort hguarded hsound hsmall tid
  | abandon tid => exact conducts_abandon hguarded hsound hsmall tid
  | evict latched => exact hstays
  | enable site => exact hquiet _ rfl rfl
  | disable site => exact hquiet _ rfl rfl
  | disarm => exact hquiet _ rfl rfl
  | _ => exact htransactional.elim

end PlainStore

namespace Store

/-- The rows in the files of the registered tables. -/
def filedRows (store : Store) : Rows :=
  fun place =>
    match store.catalog.read store.disk place.page with
    | .ok page => page.fields? place.slot
    | .error _ => none

/-- The ledger of a run. -/
def ledger (store : Store) (turns : List Turn) : Ledger :=
  Ledger.empty.noteAll (store.seen turns)

variable {store : Store} {changed : List Page} {initial : Rows} {ledger : Ledger}
  {turns : List Turn}

theorem filedRows_eq (hsmall : store.catalog.Small store.disk) :
    store.filedRows = store.catalog.rows store.disk := by
  funext place
  simp only [filedRows, Catalog.rows]
  cases hread : store.catalog.read store.disk place.page with
  | ok page =>
      simp only [Catalog.filed?_of_read hread, Option.bind_some]
  | error error =>
      cases hfiled : store.catalog.filed? store.disk place.page with
      | none => rfl
      | some page =>
          rw [Catalog.read_of_filed? hsmall hfiled] at hread
          exact absurd hread (by simp)

/-- What holds of a store in a run of transactions: cache and files agree, changed pages are
locked, and the ledger accounts for the rows. -/
structure Accounted (initial : Rows) (ledger : Ledger) (store : Store) (changed : List Page) :
    Prop where
  coherent : Coherent store changed
  guarded : (store.plain changed).Guarded
  accounts : Accounts initial ledger (store.plain changed).standing

/-- A store that was just opened has no changes to account for. -/
theorem Fresh.accounted (hfresh : store.Fresh) (hapart : store.catalog.Apart store.log.location) :
    Accounted (store.catalog.rows store.disk) .empty store [] := by
  refine ⟨hfresh.coherent hapart, ⟨?_, ?_⟩, .of_unchanged⟩
  · show store.pool.locks.Sound
    rw [hfresh.locks]
    exact List.nodup_nil
  · intro address tid howned
    exact absurd howned (by simp [PlainStore.owner?, PlainStore.changed?, plain])

theorem event_turn (hcoherent : Coherent store changed)
    (hsmall : store.catalog.Small store.disk) {turn : Turn} (hfixed : turn.operation.Fixed) :
    Event.of turn.operation (store.turn turn).1
      = Event.of turn.operation ((store.plain changed).turn turn).1 := by
  cases hevict : turn.operation.isEvict with
  | false => rw [(turn_agree hcoherent hsmall hfixed).1 hevict]
  | true =>
      cases hoperation : turn.operation with
      | evict latched => rfl
      | _ => exact absurd hevict (by simp [hoperation, Operation.isEvict])

/-! ## One turn -/

theorem conducts_turn (hcoherent : Coherent store changed)
    (hguarded : (store.plain changed).Guarded) (hsmall : store.catalog.Small store.disk)
    {turn : Turn} (hfits : turn.Fits store) (htransactional : turn.operation.Transactional) :
    (store.plain changed).Conducts
      (Event.of turn.operation ((store.plain changed).turn turn).1)
      ((store.plain changed).turn turn).2 := by
  cases turn with
  | step operation =>
      exact PlainStore.conducts_step hguarded hcoherent.sound hsmall htransactional
  | commit tid order =>
      have horder : order.Perm ((store.plain changed).dirtiedBy tid) := by
        rw [hcoherent.dirtiedBy_eq]
        exact hfits
      rcases PlainStore.conducts_endIn_commit hguarded hcoherent.sound hsmall horder with
        ⟨hresult, hconducts⟩ | ⟨⟨error, hresult⟩, hconducts⟩
      · simp only [PlainStore.turn, PlainStore.Outcome.answering, hresult, Except.map]
        exact hconducts
      · simp only [PlainStore.turn, PlainStore.Outcome.answering, hresult, Except.map]
        exact hconducts

/-- One turn keeps the accounts and does what its answer says. -/
theorem Accounted.turn (haccounted : Accounted initial ledger store changed)
    (hsmall : store.catalog.Small store.disk) {turn : Turn} (hfits : turn.Fits store)
    (htransactional : turn.operation.Transactional) :
    ∃ still, Accounted initial (ledger.note (Event.of turn.operation (store.turn turn).1))
        (store.turn turn).2 still ∧
      (store.plain changed).Conducts (Event.of turn.operation (store.turn turn).1)
        ((store.turn turn).2.plain still) ∧
      ((store.plain changed).turn turn).2 = (store.turn turn).2.plain still := by
  obtain ⟨hcoherent, hguarded, haccounts⟩ := haccounted
  have hfixed := htransactional.fixed
  obtain ⟨-, still, hafter, hplain⟩ := turn_agree hcoherent hsmall hfixed
  have hconducts := conducts_turn hcoherent hguarded hsmall hfits htransactional
  rw [hplain, ← event_turn hcoherent hsmall hfixed] at hconducts
  exact ⟨still, ⟨hafter, hconducts.guarded, haccounts.of_happens hconducts.happens⟩, hconducts,
    hplain⟩

/-! ## Runs -/

theorem Accounted.follow (turns : List Turn) (haccounted : Accounted initial ledger store changed)
    (hadmits : store.Admits turns)
    (htransactional : ∀ turn ∈ turns, turn.operation.Transactional) :
    ∃ still, Accounted initial (ledger.noteAll (store.seen turns)) (store.follow turns) still := by
  induction turns generalizing store changed ledger with
  | nil => exact ⟨changed, haccounted⟩
  | cons turn turns ih =>
      obtain ⟨hsmall, hfits, hrest⟩ := hadmits
      obtain ⟨next, hafter, -, -⟩ :=
        haccounted.turn hsmall hfits (htransactional turn List.mem_cons_self)
      exact ih hafter hrest
        fun other hother => htransactional other (List.mem_cons_of_mem turn hother)

/-- After a run of transactions the table files hold the rows from the start with the changes of
the committed transactions, in the order of the commits: each insert at the address it gave back,
and none over another row.  No other change is in a file.  A commit flushes the pages of its
transaction in any order. -/
theorem files_hold_committed (hopened : Opened store)
    (hapart : store.catalog.Apart store.log.location) (turns : List Turn)
    (htransactional : ∀ turn ∈ turns, turn.operation.Transactional)
    (hadmits : store.Admits turns) :
    replay? store.filedRows (store.ledger turns).committed
      = some (store.follow turns).filedRows := by
  have hfresh := hopened.fresh.accounted hapart
  obtain ⟨still, -, -, haccounts⟩ := hfresh.follow turns hadmits htransactional
  rw [filedRows_eq hadmits.head, filedRows_eq hadmits.last]
  exact haccounts.committed

/-- One transaction commits two pages, the second one first, one fails to commit and one is
aborted. -/
theorem files_hold_committed_sample :
    let turns := [.step .begin, .step (.insert 1 sampleTable (sampleRow 7)),
      .step (.insert 1 sampleTable (sampleRow 8)), .step (.insert 1 sampleTable (sampleRow 9)),
      .step (.insert 1 sampleTable (sampleRow 10)),
      .commit 1 [⟨sampleTable, 1⟩, ⟨sampleTable, 0⟩], .step (.evict []), .step .begin,
      .step (.delete 2 (sampleRowAt 8 0 1)), .step (.enable heapWritePage),
      .commit 2 [⟨sampleTable, 0⟩], .step .disarm, .step .begin,
      .step (.insert 3 sampleTable (sampleRow 11)), .step (.abort 3)]
    (sample.ledger turns).committed.length = 4 ∧
      replay? sample.filedRows (sample.ledger turns).committed
        = some (sample.follow turns).filedRows :=
  ⟨by decide +kernel, files_hold_committed opened_sample (by decide +kernel) _
    (by simp [Turn.operation, Operation.Transactional, valid_sampleRow]) (by decide +kernel)⟩

end Store

end HeapStore
