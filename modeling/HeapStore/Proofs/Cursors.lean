import HeapStore.Proofs.Turns

/-!
# How cursors go on

A cursor gives the rows that it has left from a page, and then reads the pages behind it, up to one
that has a row.  Reading a page is a turn (`Cursor.read`).
-/

namespace HeapStore

namespace Cursor

/-- The turn by which a cursor gets a page. -/
def read (cursor : Cursor) (number : Nat) : Turn :=
  .step (.getPage cursor.transaction ⟨cursor.table.id, UInt32.ofNat number⟩ .readOnly [])

variable {cursor : Cursor} {store after : Store}

theorem turn_read (cursor : Cursor) (number : Nat) (store : Store) :
    (store.turn (cursor.read number)).2 = ((cursor.pageRows number).perform store).2 := by
  rw [Store.perform_pageRows]
  show (Action.perform (Reply.frame <$> _) store).2 = _
  rw [Action.perform_map]

/-- To read a page touches nothing but locks and the cache. -/
theorem pageRows_withPool (cursor : Cursor) (number : Nat) (store : Store) :
    ∃ pool, ((cursor.pageRows number).perform store).2 = store.withPool pool := by
  rw [Store.perform_pageRows]
  exact Store.getPage_withPool _ _ _ _ _

/-- A cursor stays with its transaction and its table. -/
theorem next_same (cursor : Cursor) (store : Store) :
    (cursor.next store).1.2.transaction = cursor.transaction ∧
      (cursor.next store).1.2.table = cursor.table := by
  fun_induction Cursor.next cursor store with
  | case2 cursor store hopen hpending hmore rows after hrows ih => exact ih
  | _ => exact ⟨rfl, rfl⟩

/-- To ask for a row touches nothing but locks and the cache. -/
theorem next_withPool (cursor : Cursor) (store : Store) :
    ∃ pool, (cursor.next store).2 = store.withPool pool := by
  fun_induction Cursor.next cursor store with
  | case2 cursor store hopen hpending hmore rows after hrows ih =>
      obtain ⟨pool, hpool⟩ := pageRows_withPool cursor cursor.nextPage store
      obtain ⟨last, hlast⟩ := ih
      rw [hrows] at hpool
      obtain rfl : after = store.withPool pool := hpool
      exact ⟨last, hlast⟩
  | case3 cursor store hopen hpending hmore error after hrows =>
      obtain ⟨pool, hpool⟩ := pageRows_withPool cursor cursor.nextPage store
      rw [hrows] at hpool
      exact ⟨pool, hpool⟩
  | _ => exact ⟨_, rfl⟩

/-! ## The next row, case by case -/

theorem next_of_closed (hclosed : ¬ cursor.isOpen = true) :
    cursor.next store = ((none, cursor), store) := by
  rw [next, if_neg hclosed]

section

variable (hopen : cursor.isOpen = true)

include hopen

theorem next_of_row (row : Row) (rows : List Row) :
    next { cursor with pending := row :: rows } store
      = ((some (.ok row), { cursor with pending := rows }), store) := by
  rw [next, if_pos hopen]

theorem next_of_rows (hmore : cursor.nextPage < (store.pageCount cursor.table).toNat)
    {rows : List Row}
    (hrows : (cursor.pageRows cursor.nextPage).perform store = (.ok rows, after)) :
    next { cursor with pending := [] } store
      = next { cursor with nextPage := cursor.nextPage + 1, pending := rows } after := by
  have hread : (pageRows { cursor with pending := [] } cursor.nextPage).perform store
      = (.ok rows, after) := hrows
  conv_lhs => rw [next, if_pos hopen]
  simp only [dif_pos hmore, hread]

theorem next_of_error (hmore : cursor.nextPage < (store.pageCount cursor.table).toNat)
    {error : StoreError}
    (hrows : (cursor.pageRows cursor.nextPage).perform store = (.error error, after)) :
    next { cursor with pending := [] } store = ((some (.error error), cursor.close), after) := by
  have hread : (pageRows { cursor with pending := [] } cursor.nextPage).perform store
      = (.error error, after) := hrows
  rw [next, if_pos hopen]
  simp only [dif_pos hmore, hread]
  rfl

theorem next_of_end (hend : ¬ cursor.nextPage < (store.pageCount cursor.table).toNat) :
    next { cursor with pending := [] } store = ((none, cursor.close), store) := by
  rw [next, if_pos hopen]
  simp only [dif_neg hend]
  rfl

end

/-! ## The rest at once -/

theorem isOpen_rest (cursor : Cursor) (store : Store) :
    (cursor.rest store).1.2.isOpen = false := by
  fun_induction Cursor.rest cursor store with
  | case1 cursor store hopen hmore rows after hrows others final last hrest ih =>
      rw [hrest] at ih
      exact ih
  | case2 => rfl
  | case3 => rfl
  | case4 cursor store hclosed => simpa using hclosed

theorem nextPage_le_rest (cursor : Cursor) (store : Store) :
    cursor.nextPage ≤ (cursor.rest store).1.2.nextPage := by
  fun_induction Cursor.rest cursor store with
  | case1 cursor store hopen hmore rows after hrows others final last hrest ih =>
      rw [hrest] at ih
      exact Nat.le_of_succ_le ih
  | case2 => exact Nat.le_refl _
  | case3 => exact Nat.le_refl _
  | case4 => exact Nat.le_refl _

/-- A cursor with pages before it goes on, unless it meets an error. -/
theorem nextPage_lt_rest (hopen : cursor.isOpen = true)
    (hmore : cursor.nextPage < (store.pageCount cursor.table).toNat)
    (hrows : ∀ error, Except.error error ∉ (cursor.rest store).1.1) :
    cursor.nextPage < (cursor.rest store).1.2.nextPage := by
  rw [rest, if_pos hopen, dif_pos hmore] at hrows ⊢
  revert hrows
  rcases (cursor.pageRows cursor.nextPage).perform store with ⟨result, after⟩
  intro hrows
  cases result with
  | error error => exact absurd (by simp) (hrows error)
  | ok rows =>
      exact nextPage_le_rest { cursor with nextPage := cursor.nextPage + 1, pending := rows } after

/-! ## Cursors at one place -/

/-- The cursors are at the same place of the same table, and have the same rows left. -/
structure Alike (cursor other : Cursor) : Prop where
  table : other.table = cursor.table
  transaction : other.transaction = cursor.transaction
  nextPage : other.nextPage = cursor.nextPage
  isOpen : other.isOpen = cursor.isOpen
  pending : other.pending.map Row.entry = cursor.pending.map Row.entry

theorem Alike.refl (cursor : Cursor) : cursor.Alike cursor :=
  ⟨rfl, rfl, rfl, rfl, rfl⟩

/-- They are the same up to the rows that they have left. -/
theorem Alike.shape {other : Cursor} (halike : cursor.Alike other) :
    ∃ pending, other = { cursor with pending := pending } ∧
      pending.map Row.entry = cursor.pending.map Row.entry := by
  obtain ⟨table, transaction, nextPage, pending, isOpen⟩ := other
  obtain ⟨rfl, rfl, rfl, rfl, hpending⟩ := halike
  exact ⟨pending, rfl, hpending⟩

theorem Alike.eq_of_nil {other : Cursor} (halike : cursor.Alike other)
    (hpending : cursor.pending = []) : other = { cursor with pending := [] } := by
  obtain ⟨pending, hother, hentries⟩ := halike.shape
  rw [hpending] at hentries
  rw [hother, List.map_eq_nil_iff.mp hentries]

end Cursor

end HeapStore
