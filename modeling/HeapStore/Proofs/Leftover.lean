import HeapStore.Proofs.Abort
import HeapStore.Proofs.Flushing
import HeapStore.Proofs.Holdings

/-!
# What a transaction that is over leaves behind

The holder of a transaction lets go of it by commit, by abort, or by dropping it.  An end that fails
is followed by one more abort, and nothing comes after that: if this last abort fails as well, the
transaction is over and keeps all its locks, and the pages that could not be read again stay
changed for good.

The last abort fails exactly if a page that the transaction has changed cannot be read from the
table that is registered for it (`perform_finishIn_abort`).  So nothing is left behind exactly if
the commit succeeds, or all pages that are still changed when the abort begins can be read
(`parting_leaves_nothing_iff`).  `unregistered_leaves_locks` is a transaction that leaves a lock
and a changed page behind, whichever way it is let go.
-/

namespace HeapStore

/-- A transaction that has no pages locked holds no lock. -/
theorem LockTable.holds_of_pagesOf {table : LockTable} (hsound : table.Sound)
    {tid : TransactionId} (hgone : table.pagesOf tid = []) (page : PageAddress) :
    table.holds page tid = false := by
  cases hmode : table.mode? page tid with
  | none => simp [holds, hmode]
  | some mode =>
      have hpage : page ∈ table.pagesOf tid := (mem_pagesOf_iff hsound).mpr ⟨mode, hmode⟩
      rw [hgone] at hpage
      exact absurd hpage List.not_mem_nil

namespace Store

open HeapStore.Action

variable {store mid after : Store} {tid : TransactionId} {address : PageAddress}

/-! ## Restores that fail -/

/-- The page can be read from the table that is registered for it. -/
def Readable (store : Store) (address : PageAddress) : Prop :=
  ∃ page, store.catalog.read store.disk address = .ok page

/-- All pages that the transaction has changed can be read from their tables. -/
def Restorable (store : Store) (tid : TransactionId) : Prop :=
  ∀ address, store.DirtyFor tid address → store.Readable address

/-- Nothing but the cache is another one, and there the locks and all pages that cannot be read are
as they were. -/
structure Stuck (store after : Store) : Prop where
  cache : after = store.withPool after.pool
  locks : after.pool.locks = store.pool.locks
  kept : ∀ address, ¬ store.Readable address →
    after.pool.find? address = store.pool.find? address

theorem Stuck.refl (store : Store) : store.Stuck store :=
  ⟨rfl, rfl, fun _ _ => rfl⟩

theorem Stuck.readable_iff (hstuck : store.Stuck after) :
    after.Readable address ↔ store.Readable address := by
  rw [hstuck.cache]
  rfl

theorem Stuck.trans (hfirst : store.Stuck mid) (hsecond : mid.Stuck after) :
    store.Stuck after := by
  refine ⟨?_, hsecond.locks.trans hfirst.locks, ?_⟩
  · rw [hsecond.cache, hfirst.cache]
    rfl
  · intro address hunread
    rw [hsecond.kept address (mt hfirst.readable_iff.mp hunread), hfirst.kept address hunread]

/-- A page that cannot be read stays changed, so that it stands in the way of the next abort too. -/
theorem Stuck.not_restorable (hstuck : store.Stuck after) (hfails : ¬ store.Restorable tid) :
    ∃ address, after.DirtyFor tid address ∧ ¬ after.Readable address := by
  simp only [Restorable, not_forall] at hfails
  obtain ⟨address, ⟨frame, hfind, howner⟩, hunread⟩ := hfails
  exact ⟨address, ⟨frame, (hstuck.kept address hunread).trans hfind, howner⟩,
    mt hstuck.readable_iff.mp hunread⟩

/-- A restore changes the cache at most, and fails if its page is cached and cannot be read. -/
theorem restorePage_stuck (hsound : store.Sound) (address : PageAddress) :
    store.Stuck ((restorePage address).perform store).2 ∧
      (((restorePage address).perform store).1 = .ok () ↔
        (address ∈ store.pool.cached → store.Readable address)) := by
  have hspares := fun other (hother : other ≠ address) => spares_restorePage hsound hother
  rw [perform_restorePage] at hspares ⊢
  cases hfind : store.pool.find? address with
  | none => exact ⟨.refl store, by simp [Pool.not_mem_cached_of_find? hfind]⟩
  | some frame =>
      obtain ⟨hframe, haddress⟩ := hsound.pool.find?_eq_some_iff.mp hfind
      have hcached : address ∈ store.pool.cached := List.mem_map.mpr ⟨frame, hframe, haddress⟩
      simp only [hfind] at hspares ⊢
      cases hread : store.catalog.read store.disk address with
      | error error => exact ⟨.refl store, by simp [hcached, Readable, hread]⟩
      | ok page =>
          simp only [hread] at hspares ⊢
          refine ⟨⟨rfl, rfl, ?_⟩, by simp [Readable, hread]⟩
          intro other hunread
          apply (hspares other _).cached
          rintro rfl
          exact hunread ⟨page, hread⟩

/-- Restores succeed exactly if all of the pages that are cached can be read. -/
theorem restores_stuck (hsound : store.Sound) (order : List PageAddress) :
    store.Stuck ((order.forM restorePage).perform store).2 ∧
      (((order.forM restorePage).perform store).1 = .ok () ↔
        ∀ address ∈ order, address ∈ store.pool.cached → store.Readable address) := by
  induction order generalizing store with
  | nil => exact ⟨.refl store, fun _ address hmem => absurd hmem List.not_mem_nil, fun _ => rfl⟩
  | cons address order ih =>
      obtain ⟨hfirst, hok⟩ := restorePage_stuck hsound address
      have hmid := sound_restorePage hsound address
      have hcached := cached_restorePage hsound address
      rw [perform_forM_cons, List.forall_mem_cons, ← hok]
      revert hfirst hmid hcached
      rcases (restorePage address).perform store with ⟨result, mid⟩
      intro hfirst hmid hcached
      cases result with
      | error error => exact ⟨hfirst, by simp⟩
      | ok _ =>
          obtain ⟨hrest, hall⟩ := ih hmid
          refine ⟨hfirst.trans hrest, hall.trans ?_⟩
          simp only [hcached, hfirst.readable_iff, true_and]

/-! ## Attempts to end a transaction -/

/-- The transaction has no lock, and no cached page is changed by it. -/
structure HoldsNothing (store : Store) (tid : TransactionId) : Prop where
  locks : ∀ page, store.pool.locks.holds page tid = false
  pages : ∀ frame ∈ store.pool.resident, frame.page.owner ≠ some tid

theorem DirtyFor.not_holdsNothing (hdirty : store.DirtyFor tid address) :
    ¬ store.HoldsNothing tid := by
  obtain ⟨frame, hfind, howner⟩ := hdirty
  exact fun hnothing => hnothing.pages frame (List.mem_of_find?_eq_some hfind) howner

/-- An end that succeeds leaves the transaction nothing. -/
theorem holdsNothing_completeIn (horderly : store.Orderly) {order : List PageAddress}
    (horder : order.Perm (store.pool.dirtiedBy tid)) (commit : Bool)
    (hcomplete : (completeIn order tid commit).perform store = (.ok (), after)) :
    after.HoldsNothing tid := by
  have hends := ends_completeIn horderly horder commit
  rw [hcomplete] at hends
  obtain ⟨-, hleaves⟩ := hends.resolve_left fun hfails => by simp at hfails
  exact ⟨LockTable.holds_of_pagesOf hleaves.orderly.locks hleaves.gone,
    fun frame hframe howner => (hleaves.dirty frame hframe (by simp [howner])).2 howner⟩

/-- Ends a transaction once, with its pages in an order that may depend on the store. -/
def finishIn (order : Store → List PageAddress) (tid : TransactionId) (commit : Bool) :
    Action Unit := do
  completeIn (order (← get)) tid commit
  logOutcome tid commit

theorem perform_finishIn (order : Store → List PageAddress) (tid : TransactionId) (commit : Bool)
    (store : Store) :
    (finishIn order tid commit).perform store =
      match (completeIn (order store) tid commit).perform store with
      | (.error error, after) => (.error error, after)
      | (.ok (), after) => (.ok (), after.logged tid (outcome commit)) := by
  simp only [finishIn, perform_bind, perform_get]
  rcases (completeIn (order store) tid commit).perform store with ⟨result, after⟩
  cases result with
  | error error => rfl
  | ok _ => rfl

/-- The order takes each page that the transaction has changed once, in whatever store. -/
def Arranges (order : Store → List PageAddress) (tid : TransactionId) : Prop :=
  ∀ store : Store, (order store).Perm (store.pool.dirtiedBy tid)

/-- An abort gets through exactly if all pages that the transaction has changed can be read. -/
theorem perform_finishIn_abort (horderly : store.Orderly) {order : Store → List PageAddress}
    (horder : Arranges order tid) :
    store.Restorable tid ∧
      (∃ after, (finishIn order tid false).perform store = (.ok (), after) ∧
        after.HoldsNothing tid) ∨
    ¬ store.Restorable tid ∧
      ∃ error after, (finishIn order tid false).perform store = (.error error, after) ∧
        after.Orderly ∧ store.Stuck after := by
  obtain ⟨hstuck, hok⟩ := restores_stuck horderly.sound (order store)
  have hkeeps := (keeps_forM (fun _ h address => keeps_restorePage h address) (order store)
    horderly).1
  have hcached : ∀ address, store.DirtyFor tid address → address ∈ store.pool.cached := by
    rintro address ⟨frame, hfind, -⟩
    obtain ⟨hframe, haddress⟩ := horderly.sound.pool.find?_eq_some_iff.mp hfind
    exact List.mem_map.mpr ⟨frame, hframe, haddress⟩
  have hrestorable : store.Restorable tid ↔
      ∀ address ∈ order store, address ∈ store.pool.cached → store.Readable address := by
    simp only [(horder store).mem_iff, mem_dirtiedBy horderly.sound, Restorable]
    exact ⟨fun hall address hdirty _ => hall address hdirty,
      fun hall address hdirty => hall address hdirty (hcached address hdirty)⟩
  rw [hrestorable, ← hok, perform_finishIn]
  have hgone : ∀ after, (completeIn (order store) tid false).perform store = (.ok (), after) →
      after.HoldsNothing tid := fun _ => holdsNothing_completeIn horderly (horder store) false
  rw [perform_completeIn] at hgone ⊢
  simp only [Bool.false_eq_true, if_false] at hgone ⊢
  revert hstuck hkeeps hgone
  rcases ((order store).forM restorePage).perform store with ⟨result, mid⟩
  intro hstuck hkeeps hgone
  cases result with
  | error error => exact .inr ⟨by simp, error, mid, rfl, hkeeps.orderly, hstuck⟩
  | ok _ =>
      obtain ⟨hlocks, hpages⟩ := hgone _ rfl
      exact .inl ⟨rfl, _, rfl, hlocks, hpages⟩

/-- A commit gets through exactly if all its flushes do; if one fails, the store is what they
left. -/
theorem perform_finishIn_commit (horderly : store.Orderly) {order : Store → List PageAddress}
    (horder : Arranges order tid) :
    (∃ mid after, ((order store).forM flushPage).perform store = (.ok (), mid) ∧
      (finishIn order tid true).perform store = (.ok (), after) ∧ after.HoldsNothing tid) ∨
    ∃ error mid, ((order store).forM flushPage).perform store = (.error error, mid) ∧
      (finishIn order tid true).perform store = (.error error, mid) ∧ mid.Orderly ∧
      mid.pool.locks = store.pool.locks := by
  have hlocks := locks_forM locks_flushPage (order store) store
  have hkeeps := (keeps_forM (fun _ h address => keeps_flushPage h address) (order store)
    horderly).1
  have hgone : ∀ after, (completeIn (order store) tid true).perform store = (.ok (), after) →
      after.HoldsNothing tid := fun _ => holdsNothing_completeIn horderly (horder store) true
  rw [perform_finishIn]
  rw [perform_completeIn] at hgone ⊢
  simp only [if_true] at hgone ⊢
  revert hlocks hkeeps hgone
  rcases ((order store).forM flushPage).perform store with ⟨result, mid⟩
  intro hlocks hkeeps hgone
  cases result with
  | error error => exact .inr ⟨error, mid, rfl, rfl, hkeeps.orderly, hlocks⟩
  | ok _ =>
      obtain ⟨hfree, hpages⟩ := hgone _ rfl
      exact .inl ⟨mid, _, rfl, rfl, hfree, hpages⟩

end Store

/-! ## Partings -/

/-- How the holder of a transaction lets go of it. -/
inductive Parting where
  | commit
  | abort
  | drop

namespace Parting

open Store HeapStore.Action

variable {store mid : Store} {tid : TransactionId} {order again : Store → List PageAddress}

/-- What is done then. -/
def action (tid : TransactionId) : Parting → Action Unit
  | commit => Store.commit tid
  | abort => Store.abort tid
  | drop => abandon tid

/-- The last abort, whose failure is passed over. -/
def abandonIn (order : Store → List PageAddress) (tid : TransactionId) : Action Unit :=
  try finishIn order tid false catch _ => pure ()

/-- An end that takes the pages in this order, and in another one if it fails and the transaction is
aborted once more. -/
def endIn (order again : Store → List PageAddress) (tid : TransactionId) (commit : Bool) :
    Action Unit :=
  try finishIn order tid commit catch error => do
    abandonIn again tid
    throw error

/-- The parting with the pages in these orders. -/
def actionIn (order again : Store → List PageAddress) (tid : TransactionId) :
    Parting → Action Unit
  | commit => endIn order again tid true
  | abort => endIn order again tid false
  | drop => abandonIn order tid

theorem perform_abandonIn (order : Store → List PageAddress) (tid : TransactionId)
    (store : Store) :
    (abandonIn order tid).perform store
      = (.ok (), ((finishIn order tid false).perform store).2) := by
  simp only [abandonIn, perform_tryCatch, perform_pure]
  rcases (finishIn order tid false).perform store with ⟨result, after⟩
  cases result with
  | error error => rfl
  | ok _ => rfl

theorem perform_endIn (order again : Store → List PageAddress) (tid : TransactionId)
    (commit : Bool) (store : Store) :
    (endIn order again tid commit).perform store =
      match (finishIn order tid commit).perform store with
      | (.error error, mid) => (.error error, ((finishIn again tid false).perform mid).2)
      | (.ok (), after) => (.ok (), after) := by
  simp only [endIn, perform_tryCatch, perform_bind, perform_abandonIn, perform_throw]
  rcases (finishIn order tid commit).perform store with ⟨result, mid⟩
  cases result with
  | error error => rfl
  | ok _ => rfl

theorem perform_finish_eq (tid : TransactionId) (commit : Bool) (store : Store) :
    (finish tid commit).perform store
      = (finishIn (·.pool.dirtiedBy tid) tid commit).perform store := by
  have hcomplete := perform_complete_eq tid commit store
  rcases hends : (completeIn (store.pool.dirtiedBy tid) tid commit).perform store with
    ⟨result, after⟩
  rw [hends] at hcomplete
  cases result with
  | error error => simp only [perform_finish, perform_finishIn, hcomplete, hends]
  | ok _ => simp only [perform_finish, perform_finishIn, hcomplete, hends]

/-- An end that fails is followed by an abort. -/
theorem perform_endWith_eq (tid : TransactionId) (commit : Bool) (store : Store) :
    (endWith tid commit).perform store
      = (endIn (·.pool.dirtiedBy tid) (·.pool.dirtiedBy tid) tid commit).perform store := by
  rw [perform_endWith, perform_endIn, perform_finish_eq]
  rcases (finishIn (·.pool.dirtiedBy tid) tid commit).perform store with ⟨result, after⟩
  cases result with
  | error error => exact congrArg (_, ·) (congrArg (·.2) (perform_finish_eq tid false after))
  | ok _ => rfl

/-- The partings take the pages in the order of their addresses. -/
theorem perform_action (parting : Parting) (tid : TransactionId) (store : Store) :
    (parting.action tid).perform store
      = (parting.actionIn (·.pool.dirtiedBy tid) (·.pool.dirtiedBy tid) tid).perform store := by
  cases parting with
  | commit => exact perform_endWith_eq tid true store
  | abort => exact perform_endWith_eq tid false store
  | drop => simp only [action, actionIn, perform_abandon, perform_abandonIn, perform_finish_eq]

/-- The store in which the transaction comes to be aborted; none if it is committed. -/
def aborted? (order : Store → List PageAddress) (store : Store) : Parting → Option Store
  | commit =>
    match ((order store).forM flushPage).perform store with
    | (.error _, mid) => some mid
    | (.ok _, _) => none
  | abort => some store
  | drop => some store

/-- What is left of a transaction that came to be aborted in the store `mid`: nothing, if all pages
that it had changed there can be read; otherwise those that cannot be read, and all locks. -/
structure LeavesBehind (mid : Store) (tid : TransactionId) (after : Store) : Prop where
  nothing : after.HoldsNothing tid ↔ mid.Restorable tid
  stuck : ¬ mid.Restorable tid → mid.Stuck after

theorem LeavesBehind.of_restorable (hrestorable : mid.Restorable tid)
    (hnothing : after.HoldsNothing tid) : LeavesBehind mid tid after :=
  ⟨iff_of_true hnothing hrestorable, fun hfails => absurd hrestorable hfails⟩

theorem LeavesBehind.of_stuck (hfails : ¬ mid.Restorable tid) (hstuck : mid.Stuck after) :
    LeavesBehind mid tid after := by
  obtain ⟨address, hdirty, -⟩ := hstuck.not_restorable hfails
  exact ⟨iff_of_false hdirty.not_holdsNothing hfails, fun _ => hstuck⟩

/-- The last abort. -/
theorem leaves_abandonIn (horderly : store.Orderly) (horder : Arranges order tid) :
    LeavesBehind store tid ((finishIn order tid false).perform store).2 := by
  rcases perform_finishIn_abort horderly horder with
    ⟨hrestorable, after, hfinish, hnothing⟩ | ⟨hfails, error, after, hfinish, -, hstuck⟩
  · rw [hfinish]
    exact .of_restorable hrestorable hnothing
  · rw [hfinish]
    exact .of_stuck hfails hstuck

/-- An abort that fails is tried again, and fails again. -/
theorem leaves_abort (horderly : store.Orderly) (horder : Arranges order tid)
    (hagain : Arranges again tid) :
    LeavesBehind store tid ((endIn order again tid false).perform store).2 := by
  rw [perform_endIn]
  rcases perform_finishIn_abort horderly horder with
    ⟨hrestorable, after, hfinish, hnothing⟩ | ⟨hfails, error, mid, hfinish, hmid, hstuck⟩
  · rw [hfinish]
    exact .of_restorable hrestorable hnothing
  · rw [hfinish]
    -- the page that stood in the way is still there
    have hstill : ¬ mid.Restorable tid := by
      obtain ⟨address, hdirty, hunread⟩ := hstuck.not_restorable hfails
      exact fun hrestorable => hunread (hrestorable address hdirty)
    exact .of_stuck hfails (hstuck.trans ((leaves_abandonIn hmid hagain).stuck hstill))

/-- A commit comes to an abort if one of its flushes fails. -/
theorem leaves_commit (horderly : store.Orderly) (horder : Arranges order tid)
    (hagain : Arranges again tid) :
    commit.aborted? order store = none ∧
      ((endIn order again tid true).perform store).2.HoldsNothing tid ∨
    ∃ mid, commit.aborted? order store = some mid ∧ mid.pool.locks = store.pool.locks ∧
      LeavesBehind mid tid ((endIn order again tid true).perform store).2 := by
  rw [perform_endIn]
  rcases perform_finishIn_commit horderly horder with
    ⟨mid, after, hflush, hfinish, hnothing⟩ | ⟨error, mid, hflush, hfinish, hmid, hlocks⟩
  · rw [hfinish]
    exact .inl ⟨by simp only [aborted?, hflush], hnothing⟩
  · rw [hfinish]
    exact .inr ⟨mid, by simp only [aborted?, hflush], hlocks, leaves_abandonIn hmid hagain⟩

/-- In every store that comes about, and whichever way the holder lets go of a transaction: nothing
is left of it exactly if it does not come to an abort, or all pages that it has changed can be read
then.  Otherwise it keeps all its locks and the changed pages that cannot be read.  The pages come
in any order; it is that of their addresses in the partings themselves. -/
theorem parting_leaves_nothing_iff (hreached : Reached store) (tid : TransactionId)
    (parting : Parting) :
    (parting.action tid).perform store
        = (parting.actionIn (·.pool.dirtiedBy tid) (·.pool.dirtiedBy tid) tid).perform store ∧
      ∀ order again result after, Arranges order tid → Arranges again tid →
        (parting.actionIn order again tid).perform store = (result, after) →
          (after.HoldsNothing tid ↔
            ∀ mid, parting.aborted? order store = some mid → mid.Restorable tid) ∧
          ∀ mid, parting.aborted? order store = some mid → ¬ mid.Restorable tid →
            mid.Stuck after ∧ after.pool.locks = store.pool.locks := by
  refine ⟨perform_action parting tid store, ?_⟩
  intro order again result after horder hagain hparting
  have hcases : parting.aborted? order store = none ∧ after.HoldsNothing tid ∨
      ∃ mid, parting.aborted? order store = some mid ∧ mid.pool.locks = store.pool.locks ∧
        LeavesBehind mid tid after := by
    obtain rfl : ((parting.actionIn order again tid).perform store).2 = after := by rw [hparting]
    cases parting with
    | commit => exact leaves_commit hreached.orderly horder hagain
    | abort => exact .inr ⟨store, rfl, rfl, leaves_abort hreached.orderly horder hagain⟩
    | drop =>
        rw [actionIn, perform_abandonIn]
        exact .inr ⟨store, rfl, rfl, leaves_abandonIn hreached.orderly horder⟩
  rcases hcases with ⟨hnone, hnothing⟩ | ⟨mid, haborted, hlocks, hleaves⟩
  · simp [hnone, hnothing]
  · simp only [haborted, Option.some.injEq, forall_eq']
    exact ⟨hleaves.nothing, fun hfails => ⟨hleaves.stuck hfails,
      (hleaves.stuck hfails).locks.trans hlocks⟩⟩

/-- One of the two tables whose pages a transaction has changed is not registered any more. -/
theorem parting_leaves_nothing_iff_halfRegistered :
    (Parting.commit.action 1).perform halfRegistered
        = (Parting.commit.actionIn (·.pool.dirtiedBy 1) (·.pool.dirtiedBy 1) 1).perform
          halfRegistered ∧
      ∀ order again result after, Arranges order 1 → Arranges again 1 →
        (Parting.commit.actionIn order again 1).perform halfRegistered = (result, after) →
          (after.HoldsNothing 1 ↔
            ∀ mid, Parting.commit.aborted? order halfRegistered = some mid → mid.Restorable 1) ∧
          ∀ mid, Parting.commit.aborted? order halfRegistered = some mid → ¬ mid.Restorable 1 →
            mid.Stuck after ∧ after.pool.locks = halfRegistered.pool.locks :=
  parting_leaves_nothing_iff (opened_sample.reached.run _) 1 .commit

/-- The table of a changed page is not registered any more. -/
def unregistered : Store :=
  sample.run [.begin, .insert 1 sampleTable (sampleRow 7), .clearCatalog]

/-- Whichever way its holder lets go of it, this transaction keeps a lock and a changed page. -/
theorem unregistered_leaves_locks :
    ∃ store tid address, Reached store ∧ ∀ parting : Parting,
      ((parting.action tid).perform store).2.pool.locks.holds address tid = true ∧
        address ∈ ((parting.action tid).perform store).2.pool.dirtiedBy tid := by
  refine ⟨unregistered, 1, ⟨sampleTable, 0⟩, opened_sample.reached.run _, ?_⟩
  intro parting
  cases parting with
  | commit => decide +kernel
  | abort => decide +kernel
  | drop => decide +kernel

end Parting

end HeapStore
