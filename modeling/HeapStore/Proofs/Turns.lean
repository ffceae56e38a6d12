import HeapStore.Proofs.Agreement
import HeapStore.Proofs.FailedCommit

/-!
# Runs in which commits flush in any order

A commit flushes the pages of its transaction one after the other, and the order is not fixed.
`Store.commit` takes the order of the addresses; a `Turn` is an operation or a commit with an order
of its own, and a run is a list of turns.  A turn is a whole call: calls that come at one time are
turns that come one after the other.

Turns agree with those of the plain store, as steps do (`turn_agree`).  Restores read one page each
and write nothing, so that their order is never seen; a turn leaves it as it is.
-/

namespace HeapStore

/-- An operation, or a commit that flushes the pages of its transaction in this order. -/
inductive Turn where
  | step (operation : Operation)
  | commit (tid : TransactionId) (order : List PageAddress)

namespace Turn

/-- The operation that the turn performs. -/
def operation : Turn → Operation
  | .step operation => operation
  | .commit tid _ => .commit tid

/-- A commit flushes each page that its transaction changed once. -/
def Fits (store : Store) : Turn → Prop
  | .step _ => True
  | .commit tid order => order.Perm (store.pool.dirtiedBy tid)

instance (store : Store) (turn : Turn) : Decidable (turn.Fits store) :=
  match turn with
  | .step _ => inferInstanceAs (Decidable True)
  | .commit tid order => inferInstanceAs (Decidable (order.Perm (store.pool.dirtiedBy tid)))

end Turn

/-- The turn on a plain store. -/
def PlainStore.turn (plain : PlainStore) : Turn → Outcome Answer
  | .step operation => plain.step operation
  | .commit tid order => Outcome.answering (plain.endIn tid order true) fun _ => .done

namespace Store

open HeapStore.Action

/-- What a caller sees of a turn, and the store after it. -/
def turn (store : Store) : Turn → Except StoreError Answer × Store
  | .step operation => (store.answer operation, (store.step operation).2)
  | .commit tid order =>
    (((commitIn order tid).perform store).1.map fun _ => .done,
      ((commitIn order tid).perform store).2)

/-- The store after some turns. -/
def follow (store : Store) (turns : List Turn) : Store :=
  turns.foldl (fun store turn => (store.turn turn).2) store

/-- The operations of some turns, each with what its caller sees. -/
def seen (store : Store) : List Turn → List (Operation × Except StoreError Answer)
  | [] => []
  | turn :: turns =>
    (turn.operation, (store.turn turn).1) :: (store.turn turn).2.seen turns

/-- The turns fit the stores that they come to, and the tables stay small there. -/
def Admits (store : Store) : List Turn → Prop
  | [] => store.catalog.Small store.disk
  | turn :: turns =>
    store.catalog.Small store.disk ∧ turn.Fits store ∧ (store.turn turn).2.Admits turns

instance decidableAdmits (store : Store) (turns : List Turn) : Decidable (store.Admits turns) :=
  match turns with
  | [] => inferInstanceAs (Decidable (store.catalog.Small store.disk))
  | turn :: rest =>
    let _ := decidableAdmits (store.turn turn).2 rest
    inferInstanceAs (Decidable (_ ∧ _ ∧ _))

variable {store : Store} {changed : List Page} {turns : List Turn}

/-! ## Runs -/

theorem Admits.head (hadmits : store.Admits turns) : store.catalog.Small store.disk := by
  cases turns with
  | nil => exact hadmits
  | cons turn turns => exact hadmits.1

theorem Admits.last (hadmits : store.Admits turns) :
    (store.follow turns).catalog.Small (store.follow turns).disk := by
  induction turns generalizing store with
  | nil => exact hadmits
  | cons turn turns ih => exact ih hadmits.2.2

theorem Admits.append {early late : List Turn} (hadmits : store.Admits (early ++ late)) :
    store.Admits early ∧ (store.follow early).Admits late := by
  induction early generalizing store with
  | nil => exact ⟨hadmits.head, hadmits⟩
  | cons turn early ih =>
      obtain ⟨hsmall, hfits, hrest⟩ := hadmits
      obtain ⟨hearly, hlate⟩ := ih hrest
      exact ⟨⟨hsmall, hfits, hearly⟩, hlate⟩

theorem follow_append (early late : List Turn) (store : Store) :
    store.follow (early ++ late) = (store.follow early).follow late :=
  List.foldl_append

theorem seen_append (early late : List Turn) (store : Store) :
    store.seen (early ++ late) = store.seen early ++ (store.follow early).seen late := by
  induction early generalizing store with
  | nil => rfl
  | cons turn early ih =>
      simp only [List.cons_append, seen, ih]
      rfl

theorem mem_seen {entry : Operation × Except StoreError Answer}
    (hentry : entry ∈ store.seen turns) :
    ∃ turn ∈ turns, entry.1 = turn.operation := by
  induction turns generalizing store with
  | nil => exact absurd hentry List.not_mem_nil
  | cons turn turns ih =>
      rcases List.mem_cons.mp hentry with rfl | hentry
      · exact ⟨turn, List.mem_cons_self, rfl⟩
      · obtain ⟨other, hother, hsame⟩ := ih hentry
        exact ⟨other, List.mem_cons_of_mem turn hother, hsame⟩

/-- A commit is the turn that flushes its pages in the order of their addresses. -/
theorem turn_commit (tid : TransactionId) (store : Store) :
    store.turn (.commit tid (store.pool.dirtiedBy tid)) = store.turn (.step (.commit tid)) := by
  have hstep : store.step (.commit tid)
      = (((commit tid).perform store).1.map fun _ => .done, ((commit tid).perform store).2) := by
    show Action.perform (commit tid *> pure Reply.done) store = _
    rw [Action.perform_seqRight_pure]
  simp only [turn, answer, hstep, ← perform_commit]
  cases ((commit tid).perform store).1 with
  | error error => rfl
  | ok _ => rfl

/-! ## Turns agree with plain turns -/

theorem commitIn_agree (hcoherent : Coherent store changed)
    (hsmall : store.catalog.Small store.disk) (order : List PageAddress) (tid : TransactionId) :
    Agree Same ((commitIn order tid).perform store)
      ((store.plain changed).endIn tid order true) := by
  have hflushes := flushEach_agree order hcoherent hsmall
  rw [perform_commitIn]
  simp only [PlainStore.endIn, if_true]
  revert hflushes
  generalize (order.forM flushPage).perform store = real
  generalize PlainStore.each PlainStore.flushPage order (store.plain changed) = outcome
  rintro ⟨hflushes, hkept⟩
  cases hflushes with
  | ok hafter _ => exact .ok ((hafter.withLocks _).logged tid .commit) rfl
  | error hafter => exact abandon_agree hafter hkept tid _

/-- One turn of a coherent store is the turn of the plain store. -/
theorem turn_agree (hcoherent : Coherent store changed) (hsmall : store.catalog.Small store.disk)
    {turn : Turn} (hfixed : turn.operation.Fixed) :
    (turn.operation.isEvict = false → (store.turn turn).1 = ((store.plain changed).turn turn).1) ∧
      ∃ still, Coherent (store.turn turn).2 still ∧
        ((store.plain changed).turn turn).2 = (store.turn turn).2.plain still := by
  cases turn with
  | step operation => exact step_agree hcoherent hsmall hfixed
  | commit tid order =>
      have hagree := commitIn_agree hcoherent hsmall order tid
      simp only [turn, PlainStore.turn]
      revert hagree
      generalize (commitIn order tid).perform store = real
      generalize (store.plain changed).endIn tid order true = outcome
      intro hagree
      cases hagree with
      | ok hafter _ => exact ⟨fun _ => rfl, _, hafter, rfl⟩
      | error hafter => exact ⟨fun _ => rfl, _, hafter, rfl⟩

end Store

end HeapStore
