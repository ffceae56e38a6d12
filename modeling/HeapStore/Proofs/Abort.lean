import HeapStore.Proofs.Exclusive
import Mathlib.Data.List.Induction

/-!
# An abort undoes its transaction

An abort never fails while the catalog stays as it is: the file of every changed page has a page in
its place that can be read.  After it, every page that the transaction changed has the rows that it
had before the first change, every other page has the rows that it had just before the abort, and
nothing of any other transaction and no table file has changed (`abort_undoes`).  The order in which
the pages are restored is never seen (`abortIn_alike`).

A page has the rows before the first change again because the file has had them all the time: the
transaction kept its lock on the page, so nobody else could bring a change of the page to the file.
-/

namespace HeapStore

namespace Accounts

variable {initial : Rows} {ledger : Ledger} {standing : Standing}

/-- A page without pending changes of a transaction is as it is in its file, if nobody else changed
it. -/
theorem present_onPage (haccounts : Accounts initial ledger standing) {tid : TransactionId}
    {page : PageAddress} (howner : ∀ other, standing.owner page = some other → other = tid)
    (hnone : ∀ edit ∈ ledger.pending tid, edit.place.page ≠ page) :
    standing.present.onPage page = standing.filed.onPage page := by
  have hview : (standing.view tid).onPage page = standing.present.onPage page := by
    funext place
    unfold Rows.onPage
    split
    · rename_i hplace
      exact haccounts.view_eq_present fun other => by rw [hplace]; exact howner other
    · rfl
  have hfilter : (ledger.pending tid).filter (Edit.isOn page) = [] := by
    apply List.filter_eq_nil_iff.mpr
    intro edit hedit
    simpa [Edit.isOn] using hnone edit hedit
  have hreplay := replay?_onPage (haccounts.pending tid) page
  rw [hfilter, hview] at hreplay
  exact (Option.some.inj hreplay).symm

end Accounts

/-- Restores forget the changes of their pages, in whatever order they come. -/
theorem PlainStore.each_restorePage {plain : PlainStore} (hsound : plain.Sound)
    (hsmall : plain.catalog.Small plain.disk) (order : List PageAddress) :
    each restorePage order plain
      = (.ok (), { plain with changed := plain.changed.filter (·.address ∉ order) }) := by
  induction order generalizing plain with
  | nil => simp [each]
  | cons address order ih =>
      cases hchanged : plain.changed? address with
      | none =>
          have hout : ∀ page ∈ plain.changed, page.address ≠ address := by
            simpa [changed?] using hchanged
          have hfilter : plain.changed.filter (·.address ∉ address :: order)
              = plain.changed.filter (·.address ∉ order) := by
            apply List.filter_congr
            intro page hpage
            simp [hout page hpage]
          simp only [each, restorePage, hchanged]
          rw [ih hsound hsmall, hfilter]
      | some page =>
          obtain ⟨hmem, rfl⟩ := hsound.changed?_eq_some_iff.mp hchanged
          obtain ⟨former, hfiled, -⟩ := (hsound.changed page hmem).filed
          simp only [each, restorePage, hchanged, Catalog.read_of_filed? hsmall hfiled]
          rw [ih (sound_drop hsound _) hsmall]
          simp [drop, List.filter_filter, Bool.and_comm]

namespace Store

open HeapStore.Action

variable {store mid after : Store} {changed still : List Page} {tid : TransactionId}
  {address : PageAddress} {initial : Rows} {ledger : Ledger}

/-! ## What a store shows -/

/-- The rows that a page has when it is read: those of the cached page, or those in its file. -/
def shown (store : Store) : Rows :=
  fun place =>
    match store.pool.find? place.page with
    | some frame => frame.page.fields? place.slot
    | none => store.filedRows place

theorem shown_eq_present (hcoherent : Coherent store changed)
    (hsmall : store.catalog.Small store.disk) :
    store.shown = (store.plain changed).present := by
  funext place
  simp only [shown, PlainStore.present]
  cases hfind : store.pool.find? place.page with
  | some frame =>
      obtain ⟨hframe, haddress⟩ := hcoherent.pool.find?_eq_some_iff.mp hfind
      rw [← haddress]
      cases howner : frame.page.owner with
      | some owner =>
          rw [hcoherent.changed?_of_dirty hframe (by simp [howner])]
          simp
      | none =>
          rw [hcoherent.changed?_of_clean hframe howner]
          have hfiled := hcoherent.filed_of_clean hframe howner
          rw [haddress] at hfiled
          simp [Catalog.rows, hfiled]
  | none =>
      rw [hcoherent.changed?_of_uncached hfind, filedRows_eq hsmall]
      rfl

/-- A page that is got has the rows that the store shows. -/
theorem shown_of_getPage (hsound : store.Sound) {access : Access} {latched : List Nat}
    {frame : Frame}
    (hget : (getPage tid address access latched).perform store = (.ok frame, after)) :
    frame.page.toRows = store.shown.onPage address := by
  obtain ⟨locks, -, hfetch⟩ := of_getPage hget
  have haddress := address_of_fetch (sound_withLocks hsound locks) hfetch
  have hfields : ∀ slot, frame.page.fields? slot = store.shown ⟨address, slot⟩ := by
    intro slot
    rcases of_fetch hfetch with ⟨hcached, -⟩ | ⟨hmissing, pool, page, -, hfiled, rfl, -⟩
    · have hfind : store.pool.find? address = some frame := hcached
      simp only [shown, hfind]
    · have hfind : store.pool.find? address = none := hmissing
      have hread : store.catalog.read store.disk address = .ok page := hfiled
      simp only [shown, hfind, filedRows, hread]
      rfl
  funext place
  simp only [Page.toRows, Rows.onPage, haddress]
  split
  · rename_i hplace
    rw [hfields, ← hplace]
  · rfl

/-! ## Restoring all pages -/

/-- Every changed page of a transaction can be restored, in any order, and then the store shows it
as it is in its file. -/
theorem restored_standing (haccounted : Accounted initial ledger store changed)
    (hsmall : store.catalog.Small store.disk) {order : List PageAddress}
    (horder : order.Perm (store.pool.dirtiedBy tid)) :
    ∃ mid still, (order.forM restorePage).perform store = (.ok (), mid) ∧ Coherent mid still ∧
      mid.catalog.Small mid.disk ∧ mid.pool.locks = store.pool.locks ∧
      (mid.plain still).standing = (store.plain changed).standing.reverted
        ((store.plain changed).standing.owns tid) := by
  have hcoherent := haccounted.coherent
  have hpages : (fun page => decide (page ∈ order)) = (store.plain changed).standing.owns tid := by
    rw [← PlainStore.mem_dirtiedBy hcoherent.sound tid, hcoherent.dirtiedBy_eq]
    funext page
    simp only [horder.mem_iff]
  obtain ⟨hok, hmoved⟩ := PlainStore.moved_each_restorePage order hcoherent.sound hsmall
  rw [hpages] at hmoved
  have hagree := restoreEach_agree order hcoherent hsmall
  revert hok hmoved hagree
  generalize (order.forM restorePage).perform store = real
  generalize PlainStore.each PlainStore.restorePage order (store.plain changed) = outcome
  rintro hok hmoved ⟨hagree, hstays⟩
  cases hagree with
  | error _ => exact absurd hok (by simp)
  | ok hmid _ => exact ⟨_, _, rfl, hmid, hstays, hmoved.locks, hmoved.standing⟩

/-- A restore keeps the pages in the cache. -/
theorem cached_restorePage (hsound : store.Sound) (address : PageAddress) :
    ((restorePage address).perform store).2.pool.cached = store.pool.cached := by
  rw [perform_restorePage]
  split
  · rfl
  · rename_i frame hfind
    split
    · rfl
    · rename_i page hread
      obtain ⟨hframe, haddress⟩ := hsound.pool.find?_eq_some_iff.mp hfind
      exact hsound.pool.cached_replace hframe ((address_of_read hread).trans haddress.symm)

theorem cached_forM_restorePage (hsound : store.Sound) (order : List PageAddress) :
    ((order.forM restorePage).perform store).2.pool.cached = store.pool.cached := by
  refine (related_forM
    (fun before after => before.Sound → after.Sound ∧ after.pool.cached = before.pool.cached)
    (fun _ hstore => ⟨hstore, rfl⟩) ?_ ?_ store hsound).2
  · intro first mid last hfirst hsecond hstore
    obtain ⟨hmid, hcached⟩ := hfirst hstore
    exact ⟨(hsecond hmid).1, (hsecond hmid).2.trans hcached⟩
  · intro address _ store hstore
    exact ⟨sound_restorePage hstore address, cached_restorePage hstore address⟩

/-! ## Aborts -/

/-- An abort that restores the pages in this order. -/
def abortIn (order : List PageAddress) (tid : TransactionId) : Action Unit :=
  try do
    completeIn order tid false
    logOutcome tid false
  catch error => do
    abandon tid
    throw error

/-- Abort restores the pages in the order of their addresses. -/
theorem perform_abort (tid : TransactionId) (store : Store) :
    (abort tid).perform store = (abortIn (store.pool.dirtiedBy tid) tid).perform store := by
  simp only [abort, perform_endWith, perform_finish, abortIn, perform_tryCatch, perform_bind,
    perform_abandon, perform_complete_eq]
  rcases (completeIn (store.pool.dirtiedBy tid) tid false).perform store with ⟨result, after⟩
  cases result with
  | error error => rfl
  | ok _ => rfl

/-- The store after an abort whose pages could all be restored. -/
def aborted (mid : Store) (tid : TransactionId) : Store :=
  (mid.withLocks (mid.pool.locks.releaseAll tid)).logged tid .abort

theorem perform_completeIn_of_ok {order : List PageAddress}
    (hrestore : (order.forM restorePage).perform store = (.ok (), mid)) (tid : TransactionId) :
    (completeIn order tid false).perform store
      = (.ok (), mid.withLocks (mid.pool.locks.releaseAll tid)) := by
  rw [perform_completeIn]
  simp only [Bool.false_eq_true, if_false]
  rw [hrestore]

theorem perform_abortIn_of_ok {order : List PageAddress}
    (hrestore : (order.forM restorePage).perform store = (.ok (), mid)) :
    (abortIn order tid).perform store = (.ok (), mid.aborted tid) := by
  simp only [abortIn, perform_tryCatch, perform_bind, perform_completeIn_of_ok hrestore]
  rfl

/-- The end of an aborted transaction moves no row. -/
theorem shown_aborted (hmid : Coherent mid still) (hsmall : mid.catalog.Small mid.disk)
    (tid : TransactionId) : (mid.aborted tid).shown = (mid.plain still).standing.present := by
  have hreleased := hmid.withLocks (mid.pool.locks.releaseAll tid)
  have hlogged := PlainStore.moved_logged hreleased.sound hsmall tid .abort
  have hafter := shown_eq_present (hreleased.logged tid .abort) hlogged.small
  rw [aborted, hafter]
  exact congrArg (·.present) hlogged.standing

theorem restoreEach_plain (hcoherent : Coherent store changed)
    (hsmall : store.catalog.Small store.disk) (order : List PageAddress) :
    ∃ mid still, (order.forM restorePage).perform store = (.ok (), mid) ∧ Coherent mid still ∧
      mid.plain still
        = { store.plain changed with
            changed := (store.plain changed).changed.filter (·.address ∉ order) } := by
  obtain ⟨hagree, -⟩ := restoreEach_agree order hcoherent hsmall
  rw [PlainStore.each_restorePage hcoherent.sound hsmall] at hagree
  revert hagree
  generalize (order.forM restorePage).perform store = real
  generalize hafter : ({ store.plain changed with
    changed := (store.plain changed).changed.filter (·.address ∉ order) } : PlainStore) = after
  intro hagree
  cases hagree with
  | ok hmid _ => exact ⟨_, _, rfl, hmid, rfl⟩

/-- Aborts that restore the same pages in different orders end alike. -/
theorem abortIn_alike (hcoherent : Coherent store changed)
    (hsmall : store.catalog.Small store.disk) (tid : TransactionId)
    {order other : List PageAddress} (hsame : ∀ address, address ∈ order ↔ address ∈ other) :
    ∃ after later, (abortIn order tid).perform store = (.ok (), after) ∧
      (abortIn other tid).perform store = (.ok (), later) ∧ after.Alike later := by
  obtain ⟨mid, still, hrestore, hmid, hplain⟩ := restoreEach_plain hcoherent hsmall order
  obtain ⟨mid', still', hrestore', hmid', hplain'⟩ := restoreEach_plain hcoherent hsmall other
  have hpages : mid.plain still = mid'.plain still' := by
    rw [hplain, hplain']
    simp only [hsame]
  refine ⟨_, _, perform_abortIn_of_ok hrestore, perform_abortIn_of_ok hrestore', ?_⟩
  apply alike_of_plain ((hmid.withLocks _).logged tid .abort)
    ((hmid'.withLocks _).logged tid .abort)
  have hlocks : mid.pool.locks = mid'.pool.locks := congrArg PlainStore.locks hpages
  rw [hlocks]
  exact congrArg (fun plain : PlainStore =>
    (plain.withLocks (mid'.pool.locks.releaseAll tid)).logged tid .abort) hpages

/-! ## The first change of a page -/

theorem ledger_append (early late : List Turn) (store : Store) :
    store.ledger (early ++ late)
      = (store.ledger early).noteAll ((store.follow early).seen late) := by
  simp only [ledger, seen_append, Ledger.noteAll, List.foldl_append]

end Store

/-- An operation that ends a transaction leaves it no pending changes. -/
theorem Ledger.pending_of_ends {ledger : Ledger} {tid : TransactionId} {operation : Operation}
    (hends : operation.ends tid = true) (answer : Except StoreError Answer) :
    (ledger.note (Event.of operation answer)).pending tid = [] := by
  cases operation with
  | commit who =>
      obtain rfl : who = tid := of_decide_eq_true hends
      cases answer with
      | error error => simp [Event.of, note, withPending]
      | ok answer => simp [Event.of, note, withPending]
  | abort who =>
      obtain rfl : who = tid := of_decide_eq_true hends
      simp [Event.of, note, withPending]
  | abandon who =>
      obtain rfl : who = tid := of_decide_eq_true hends
      simp [Event.of, note, withPending]
  | _ => exact absurd hends (by simp [Operation.ends])

namespace Store

open HeapStore.Action

variable {store mid after start : Store} {changed : List Page} {tid : TransactionId}
  {page : PageAddress} {turns : List Turn} {initial : Rows} {ledger : Ledger}

/-- After the turns `early`, the turn is the first change of the page that the transaction makes
since it last ended, and it does not end in the turns `late`. -/
structure FirstChange (start : Store) (early : List Turn) (turn : Turn) (late : List Turn)
    (tid : TransactionId) (page : PageAddress) : Prop where
  changes : ∃ edit, Event.of turn.operation ((start.follow early).turn turn).1 = .edited tid edit ∧
    edit.place.page = page
  first : ∀ edit ∈ (start.ledger early).pending tid, edit.place.page ≠ page
  goes : ∀ later ∈ late, later.operation.ends tid = false

/-- A page with pending changes has a first one. -/
theorem exists_firstChange (start : Store) (turns : List Turn) {edit : Edit}
    (hedit : edit ∈ (start.ledger turns).pending tid) :
    ∃ early turn late, turns = early ++ turn :: late ∧
      start.FirstChange early turn late tid edit.place.page := by
  induction turns using List.reverseRecOn generalizing edit with
  | nil => exact absurd hedit List.not_mem_nil
  | append_singleton turns turn ih =>
      have hledger : start.ledger (turns ++ [turn]) = (start.ledger turns).note
          (Event.of turn.operation ((start.follow turns).turn turn).1) :=
        ledger_append turns [turn] start
      rw [hledger] at hedit
      have hgoes : turn.operation.ends tid = false := by
        by_contra hends
        rw [Ledger.pending_of_ends (by simpa using hends)] at hedit
        exact absurd hedit List.not_mem_nil
      by_cases hold : ∃ former ∈ (start.ledger turns).pending tid,
          former.place.page = edit.place.page
      -- the page had a first change before the last turn
      · obtain ⟨former, hformer, hpage⟩ := hold
        obtain ⟨early, first, late, rfl, hfirst⟩ := ih hformer
        refine ⟨early, first, late ++ [turn], by simp, ?_⟩
        rw [← hpage]
        refine ⟨hfirst.changes, hfirst.first, ?_⟩
        intro later hlater
        rcases List.mem_append.mp hlater with hlater | hlater
        · exact hfirst.goes later hlater
        · rw [List.mem_singleton.mp hlater]
          exact hgoes
      · refine ⟨turns, turn, [], rfl, ?_, ?_, by simp⟩
        · rw [Ledger.pending_note (Event.ends_of hgoes _)] at hedit
          rcases List.mem_append.mp hedit with hedit | hedit
          · exact absurd ⟨edit, hedit, rfl⟩ hold
          · revert hedit
            cases Event.of turn.operation ((start.follow turns).turn turn).1 with
            | edited who made =>
                intro hedit
                by_cases hwho : tid = who
                · subst hwho
                  simp only [Ledger.note, Ledger.withPending, Ledger.empty, if_true,
                    List.nil_append, List.mem_singleton] at hedit
                  exact ⟨made, rfl, by rw [hedit]⟩
                · simp [Ledger.note, Ledger.withPending, Ledger.empty, hwho] at hedit
            | committed who => simp [Ledger.note, Ledger.withPending, Ledger.empty]
            | dropped who => simp [Ledger.note, Ledger.withPending, Ledger.empty]
            | quiet => simp [Ledger.note, Ledger.empty]
        · intro former hformer hpage
          exact hold ⟨former, hformer, hpage⟩

/-- From the first change of a page until its transaction ends, the file has the page as it was
before. -/
theorem filedRows_of_firstChange (hfresh : start.Fresh)
    (hapart : start.catalog.Apart start.log.location) {early late : List Turn} {turn : Turn}
    (htransactional : ∀ later ∈ early ++ turn :: late, later.operation.Transactional)
    (hadmits : start.Admits (early ++ turn :: late))
    (hfirst : start.FirstChange early turn late tid page) :
    (start.follow (early ++ turn :: late)).filedRows.onPage page
      = (start.follow early).shown.onPage page := by
  obtain ⟨hearly, hsmall, hfits, hlate⟩ := hadmits.append
  obtain ⟨changed, hbefore⟩ := (hfresh.accounted hapart).follow early hearly
    fun later hlater => htransactional later (List.mem_append_left _ hlater)
  obtain ⟨next, hturn, hconducts, -⟩ := hbefore.turn hsmall hfits
    (htransactional turn (List.mem_append_right _ List.mem_cons_self))
  obtain ⟨edit, hevent, rfl⟩ := hfirst.changes
  rw [hevent] at hturn hconducts
  obtain ⟨standing, hstanding⟩ :
      ∃ standing, (((start.follow early).turn turn).2.plain next).standing = standing := ⟨_, rfl⟩
  have hhappens := hconducts.happens
  rw [hstanding] at hhappens
  cases hhappens with
  | edited howner hedit =>
      -- the transaction holds the page from now on
      have hmine := hturn.accounts.owned tid edit
        (by simp [Ledger.note, Ledger.withPending])
      have hheld := LockTable.holds_of_mode? (hturn.guarded.owned edit.place.page tid hmine)
      obtain ⟨last, hafter, hrows⟩ := hturn.follow_held late hheld hlate
        (fun later hlater => htransactional later
          (List.mem_append_right _ (List.mem_cons_of_mem turn hlater))) hfirst.goes
      have hrun : start.follow (early ++ turn :: late)
          = ((start.follow early).turn turn).2.follow late := follow_append early _ start
      have hpresent := hbefore.accounts.present_onPage howner hfirst.first
      rw [hrun, filedRows_eq hlate.last, hrows, shown_eq_present hbefore.coherent hsmall]
      refine Eq.trans ?_ hpresent.symm
      exact congrArg (fun standing => standing.filed.onPage edit.place.page) hstanding

/-! ## What an abort undoes -/

/-- What holds after a transaction was aborted at the end of a run. -/
structure Undone (start : Store) (turns : List Turn) (tid : TransactionId)
    (after : Store) : Prop where
  /-- A page that it changed has the rows from before its first change. -/
  former : ∀ edit ∈ (start.ledger turns).pending tid,
    ∃ early turn late, turns = early ++ turn :: late ∧
      start.FirstChange early turn late tid edit.place.page ∧
      after.shown.onPage edit.place.page = (start.follow early).shown.onPage edit.place.page
  /-- It is in the cache, and it is clean. -/
  cached : ∀ edit ∈ (start.ledger turns).pending tid,
    ∃ frame, after.pool.find? edit.place.page = some frame ∧ frame.page.owner = none
  /-- Every other page has the rows from just before the abort. -/
  elsewhere : ∀ page, (∀ edit ∈ (start.ledger turns).pending tid, edit.place.page ≠ page) →
    after.shown.onPage page = (start.follow turns).shown.onPage page
  /-- These are the rows of a page that is got. -/
  read : ∀ {who address access latched frame last},
    (getPage who address access latched).perform after = (.ok frame, last) →
      frame.page.toRows = after.shown.onPage address
  /-- No cached page is dirty for the transaction. -/
  clean : ∀ frame ∈ after.pool.resident, frame.page.owner ≠ some tid
  /-- It holds no lock. -/
  unlocked : after.pool.locks.pagesOf tid = [] ∧ ∀ page, after.pool.locks.mode? page tid = none
  /-- What was not dirty for it is cached as before, with its owner. -/
  others : ∀ address, (∀ frame, (start.follow turns).pool.find? address = some frame →
      frame.page.owner ≠ some tid) →
    after.pool.find? address = (start.follow turns).pool.find? address
  /-- The locks of the others are as before. -/
  locks : ∀ page who, who ≠ tid →
    after.pool.locks.mode? page who = (start.follow turns).pool.locks.mode? page who
  /-- No file but the log has changed, and no table file is the log. -/
  files : (∀ location, location ≠ (start.follow turns).log.location →
      after.disk.content location = (start.follow turns).disk.content location) ∧
    (start.follow turns).catalog.Apart (start.follow turns).log.location

/-- Pages that are in the file as they were before the first change have these rows again. -/
theorem former_of_reverted (hfresh : start.Fresh)
    (hapart : start.catalog.Apart start.log.location)
    (htransactional : ∀ turn ∈ turns, turn.operation.Transactional)
    (hadmits : start.Admits turns)
    (haccounted : Accounted initial (start.ledger turns) (start.follow turns) changed)
    (hafter : after.shown = (((start.follow turns).plain changed).standing.reverted
      (((start.follow turns).plain changed).standing.owns tid)).present) {edit : Edit}
    (hedit : edit ∈ (start.ledger turns).pending tid) :
    ∃ early turn late, turns = early ++ turn :: late ∧
      start.FirstChange early turn late tid edit.place.page ∧
      after.shown.onPage edit.place.page
        = (start.follow early).shown.onPage edit.place.page := by
  obtain ⟨early, turn, late, rfl, hfirst⟩ := exists_firstChange start turns hedit
  refine ⟨early, turn, late, rfl, hfirst, ?_⟩
  rw [← filedRows_of_firstChange hfresh hapart htransactional hadmits hfirst,
    filedRows_eq hadmits.last, hafter]
  have howned := haccounted.accounts.owned tid edit hedit
  funext place
  unfold Rows.onPage
  split
  · rename_i hplace
    rw [← hplace] at howned
    simp only [Standing.reverted, Standing.owns, howned, decide_true, if_true]
    rfl
  · rfl

/-- A page without pending changes of the transaction is shown as before. -/
theorem elsewhere_of_reverted (haccounted : Accounted initial ledger store changed)
    (hsmall : store.catalog.Small store.disk)
    (hafter : after.shown = ((store.plain changed).standing.reverted
      ((store.plain changed).standing.owns tid)).present)
    (hnone : ∀ edit ∈ ledger.pending tid, edit.place.page ≠ page) :
    after.shown.onPage page = store.shown.onPage page := by
  have hbefore : store.shown = (store.plain changed).standing.present :=
    shown_eq_present haccounted.coherent hsmall
  rw [hafter, hbefore]
  by_cases howned : (store.plain changed).standing.owner page = some tid
  -- its own, but without a change that counts: the file has what is present
  · rw [haccounted.accounts.present_onPage
      (fun other hother => Option.some.inj (hother.symm.trans howned)) hnone]
    funext place
    unfold Rows.onPage
    split
    · rename_i hplace
      rw [← hplace] at howned
      simp [Standing.reverted, Standing.owns, howned]
    · rfl
  · funext place
    unfold Rows.onPage
    split
    · rename_i hplace
      rw [← hplace] at howned
      simp [Standing.reverted, Standing.owns, howned]
    · rfl

/-- A page with pending changes is cached and dirty. -/
theorem Accounted.frame_of_pending (haccounted : Accounted initial ledger store changed)
    {edit : Edit} (hedit : edit ∈ ledger.pending tid) :
    ∃ frame, store.pool.find? edit.place.page = some frame ∧ frame.page.owner = some tid := by
  have howned : (store.plain changed).owner? edit.place.page = some tid :=
    haccounted.accounts.owned tid edit hedit
  obtain ⟨page, hchanged, howner⟩ := Option.bind_eq_some_iff.mp howned
  obtain ⟨hpage, haddress⟩ := haccounted.coherent.changed?_eq_some_iff.mp hchanged
  obtain ⟨frame, hframe, rfl⟩ := haccounted.coherent.cached page hpage
  exact ⟨frame, haccounted.coherent.pool.find?_eq_some_iff.mpr ⟨hframe, haddress⟩, howner⟩

/-- A page that was dirty for a transaction which has given up its pages is clean, if it is still
cached. -/
theorem Leaves.clean_of_cached (hleaves : store.Leaves tid after) (hsound : store.Sound)
    (hstays : after.pool.cached = store.pool.cached) {frame : Frame}
    (hfind : store.pool.find? page = some frame) (howner : frame.page.owner = some tid) :
    ∃ found, after.pool.find? page = some found ∧ found.page.owner = none := by
  cases hafter : after.pool.find? page with
  | none =>
      obtain ⟨hframe, haddress⟩ := hsound.pool.find?_eq_some_iff.mp hfind
      have hout := Pool.not_mem_cached_of_find? hafter
      rw [hstays] at hout
      exact absurd (List.mem_map.mpr ⟨frame, hframe, haddress⟩) hout
  | some found =>
      refine ⟨found, rfl, ?_⟩
      obtain ⟨hfound, hplace⟩ := hleaves.orderly.sound.pool.find?_eq_some_iff.mp hafter
      by_contra hdirty
      -- it would be the frame that was dirty for the transaction
      obtain ⟨hbefore, hother⟩ := hleaves.dirty found hfound (Option.isSome_iff_ne_none.mpr hdirty)
      have hsame := hsound.pool.find?_eq_some_iff.mpr ⟨hbefore, hplace⟩
      rw [hfind] at hsame
      exact hother (by rw [← Option.some.inj hsame, howner])

/-- Once all pages of a transaction are restored, the transaction is undone. -/
theorem undone_of_restored (hfresh : start.Fresh)
    (hapart : start.catalog.Apart start.log.location)
    (htransactional : ∀ turn ∈ turns, turn.operation.Transactional)
    (hadmits : start.Admits turns)
    (haccounted : Accounted initial (start.ledger turns) (start.follow turns) changed)
    {order : List PageAddress} (horder : order.Perm ((start.follow turns).pool.dirtiedBy tid)) :
    ∃ after, (abortIn order tid).perform (start.follow turns) = (.ok (), after) ∧
      start.Undone turns tid after := by
  have hcoherent := haccounted.coherent
  have horderly : (start.follow turns).Orderly :=
    ⟨⟨hcoherent.pool, hcoherent.sound.catalog⟩, haccounted.guarded.locks⟩
  obtain ⟨mid, still, hrestore, hmid, hfiles, hlocks, hstanding⟩ :=
    restored_standing haccounted hadmits.last horder
  have hcomplete := perform_completeIn_of_ok hrestore tid
  have hshown := shown_aborted hmid hfiles tid
  rw [hstanding] at hshown
  -- what holds of every transaction that gives up its locks
  have hleaves : (start.follow turns).Leaves tid
      (mid.withLocks (mid.pool.locks.releaseAll tid)) := by
    have hends := ends_completeIn horderly horder false
    rw [hcomplete] at hends
    rcases hends with ⟨⟨error, herror⟩, -⟩ | ⟨-, hleaves⟩
    · exact absurd herror (by simp)
    · exact hleaves
  have hmode : ∀ page who, (mid.aborted tid).pool.locks.mode? page who =
      if who = tid then none else (start.follow turns).pool.locks.mode? page who := by
    intro page who
    show (mid.pool.locks.releaseAll tid).mode? page who = _
    rw [hlocks, LockTable.mode?_releaseAll horderly.locks]
  refine ⟨mid.aborted tid, perform_abortIn_of_ok hrestore, ?_⟩
  constructor
  case former =>
    intro edit hedit
    exact former_of_reverted hfresh hapart htransactional hadmits haccounted hshown hedit
  case cached =>
    intro edit hedit
    obtain ⟨frame, hfind, howner⟩ := haccounted.frame_of_pending hedit
    have hstays : (mid.aborted tid).pool.cached = (start.follow turns).pool.cached := by
      have hcached := cached_forM_restorePage horderly.sound order
      rw [hrestore] at hcached
      exact hcached
    exact hleaves.clean_of_cached horderly.sound hstays hfind howner
  case elsewhere =>
    intro page hnone
    exact elsewhere_of_reverted haccounted hadmits.last hshown hnone
  case read =>
    intro who address access latched frame last hget
    have hsound : (mid.aborted tid).Sound := ⟨hleaves.orderly.sound.pool, hmid.sound.catalog⟩
    exact shown_of_getPage hsound hget
  case clean =>
    intro frame hframe howner
    exact (hleaves.dirty frame hframe (by simp [howner])).2 howner
  case unlocked =>
    refine ⟨hleaves.gone, ?_⟩
    intro page
    rw [hmode, if_pos rfl]
  case others =>
    intro address hother
    have hout : address ∉ order := by
      intro hmem
      obtain ⟨frame, owner, hfind, -⟩ :=
        dirty_of_mem_dirtiedBy horderly.sound (horder.mem_iff.mp hmem)
      obtain ⟨hframe, rfl⟩ := hcoherent.pool.find?_eq_some_iff.mp hfind
      exact hother frame hfind
        ((mem_dirtiedBy_iff horderly.sound hframe).mp (horder.mem_iff.mp hmem))
    have hspares := spares_completeIn horderly.sound hout tid false
    rw [hcomplete] at hspares
    exact hspares.cached
  case locks =>
    intro page who hwho
    rw [hmode, if_neg hwho]
  case files =>
    refine ⟨?_, hcoherent.sound.apart⟩
    have hrestored := onlyLogged_forM onlyLogged_restorePage order (start.follow turns)
    rw [hrestore] at hrestored
    have hreleased : (start.follow turns).OnlyLogged
        (mid.withLocks (mid.pool.locks.releaseAll tid)) := ⟨hrestored.location, hrestored.files⟩
    exact (hreleased.trans (onlyLogged_logged _ tid .abort)).files

/-- In every run of transactions, and with failpoints armed or not, an abort succeeds and undoes its
transaction, in whatever order the pages are restored; `abort` restores them in the order of their
addresses.  A transaction whose holder has gone is undone in the same way. -/
theorem abort_undoes (hopened : Opened start) (hapart : start.catalog.Apart start.log.location)
    (turns : List Turn) (htransactional : ∀ turn ∈ turns, turn.operation.Transactional)
    (hadmits : start.Admits turns) (tid : TransactionId) :
    (∀ order, order.Perm ((start.follow turns).pool.dirtiedBy tid) →
      ∃ after, (abortIn order tid).perform (start.follow turns) = (.ok (), after) ∧
        start.Undone turns tid after) ∧
    (abort tid).perform (start.follow turns)
      = (abortIn ((start.follow turns).pool.dirtiedBy tid) tid).perform (start.follow turns) ∧
    (abandon tid).perform (start.follow turns) = (abort tid).perform (start.follow turns) := by
  have hfresh := hopened.fresh
  obtain ⟨changed, haccounted⟩ := (hfresh.accounted hapart).follow turns hadmits htransactional
  have hundone : ∀ order, order.Perm ((start.follow turns).pool.dirtiedBy tid) →
      ∃ after, (abortIn order tid).perform (start.follow turns) = (.ok (), after) ∧
        start.Undone turns tid after :=
    fun _ horder => undone_of_restored hfresh hapart htransactional hadmits haccounted horder
  refine ⟨hundone, perform_abort tid _, ?_⟩
  obtain ⟨after, habort, -⟩ := hundone _ (.refl _)
  rw [← perform_abort] at habort
  rw [perform_abandon, habort]
  simp only [abort, perform_endWith] at habort
  revert habort
  rcases (finish tid false).perform (start.follow turns) with ⟨result, last⟩
  cases result with
  | error error => exact fun habort => absurd (Prod.mk.inj habort).1 (by simp)
  | ok _ => exact fun habort => habort

/-- Two pages of a transaction are undone, after rows of another transaction were committed to both,
the second page first. -/
theorem abort_undoes_sample :
    let turns := [.step .begin, .step (.insert 1 sampleTable (sampleRow 7)),
      .step (.insert 1 sampleTable (sampleRow 8)), .step (.insert 1 sampleTable (sampleRow 9)),
      .step (.insert 1 sampleTable (sampleRow 10)),
      .commit 1 [⟨sampleTable, 1⟩, ⟨sampleTable, 0⟩], .step .begin,
      .step (.delete 2 (sampleRowAt 8 0 1)), .step (.insert 2 sampleTable (sampleRow 11)),
      .step (.insert 2 sampleTable (sampleRow 12)), .step (.enable flushAfterForce)]
    (sample.follow turns).pool.dirtiedBy 2 = [⟨sampleTable, 0⟩, ⟨sampleTable, 1⟩] ∧
      (∀ order, order.Perm ((sample.follow turns).pool.dirtiedBy 2) →
        ∃ after, (abortIn order 2).perform (sample.follow turns) = (.ok (), after) ∧
          sample.Undone turns 2 after) ∧
      (abort 2).perform (sample.follow turns)
        = (abortIn ((sample.follow turns).pool.dirtiedBy 2) 2).perform (sample.follow turns) ∧
      (abandon 2).perform (sample.follow turns)
        = (abort 2).perform (sample.follow turns) :=
  ⟨by decide +kernel, abort_undoes opened_sample (by decide +kernel) _
    (by simp [Turn.operation, Operation.Transactional, valid_sampleRow]) (by decide +kernel) 2⟩

end Store

end HeapStore
