import HeapStore.Proofs.Chains
import HeapStore.Proofs.Committed
import HeapStore.Proofs.Limit

/-!
# What the log tells of each transaction

A transaction that runs has no record in the log.  One whose commit succeeded has one update for
each page that it changed, and then its commit; one that was aborted or abandoned has its abort
only; one whose commit failed has updates, and then its abort.  These records stand one behind the
other, the first without a previous record and each other with the one before it (`log_tells`).

This needs numbers for transactions that were not given before.  They have 64 bits and start again
at 0, so a run that begins too many transactions comes to one that is in the log already
(`numbers_run_out`).  It also needs tables that stay below the limit of page numbers: beyond it a
changed page cannot be read again, and a transaction that is dropped leaves no record
(`pages_run_out`).
-/

namespace HeapStore

/-! ## Fates -/

/-- What has become of a transaction; a committed one had changed these pages. -/
inductive Fate where
  | unborn
  | running
  | committed (pages : List PageAddress)
  | failed
  | aborted
  deriving DecidableEq

/-- The records that a transaction with this fate leaves. -/
inductive Fate.Leaves : Fate → List LogRecord → Prop
  | unborn : Leaves .unborn []
  | running : Leaves .running []
  | committed {pages order : List PageAddress} {updates : List LogRecord} (hnodup : order.Nodup)
      (hpages : ∀ page, page ∈ order ↔ page ∈ pages)
      (hupdates : PlainStore.Updates order updates) :
      Leaves (.committed pages) (updates ++ [.commit])
  | failed {updates : List LogRecord} (hsome : updates ≠ [])
      (hupdates : ∀ record ∈ updates, record.isUpdate = true) : Leaves .failed (updates ++ [.abort])
  | aborted : Leaves .aborted [.abort]

/-- Only a transaction that has ended leaves records. -/
theorem Fate.leaves_of_going {fate : Fate} (hgoing : fate = .unborn ∨ fate = .running)
    {records : List LogRecord} (hleaves : fate.Leaves records) : records = [] := by
  rcases hgoing with rfl | rfl
  · cases hleaves
    rfl
  · cases hleaves
    rfl

/-- Among these entries, those of the transaction stand one behind the other, linked, and are what
its fate leaves. -/
def Told (fate : Fate) (tid : TransactionId) (entries : List LogEntry) : Prop :=
  ∃ front own behind, entries = front ++ own ++ behind ∧
    (∀ entry ∈ front ++ behind, entry.transaction ≠ tid) ∧
    (∀ entry ∈ own, entry.transaction = tid) ∧ Linked none own ∧
    fate.Leaves (own.map (·.record))

section

variable {fate : Fate} {tid : TransactionId} {entries added : List LogEntry}

theorem told_of_none (hnone : ∀ entry ∈ entries, entry.transaction ≠ tid)
    (hfate : fate.Leaves []) : Told fate tid entries :=
  ⟨entries, [], [], by simp, by simpa using hnone, by simp, trivial, hfate⟩

/-- Entries of other transactions do not matter. -/
theorem Told.append (htold : Told fate tid entries)
    (hothers : ∀ entry ∈ added, entry.transaction ≠ tid) : Told fate tid (entries ++ added) := by
  obtain ⟨front, own, behind, rfl, hout, hown, hlinked, hleaves⟩ := htold
  refine ⟨front, own, behind ++ added, by simp, ?_, hown, hlinked, hleaves⟩
  intro entry hentry
  rw [← List.append_assoc] at hentry
  rcases List.mem_append.mp hentry with hentry | hentry
  · exact hout entry hentry
  · exact hothers entry hentry

theorem Told.after (htold : Told fate tid entries) {old : List LogEntry}
    (hothers : ∀ entry ∈ old, entry.transaction ≠ tid) : Told fate tid (old ++ entries) := by
  obtain ⟨front, own, behind, rfl, hout, hown, hlinked, hleaves⟩ := htold
  refine ⟨old ++ front, own, behind, by simp, ?_, hown, hlinked, hleaves⟩
  intro entry hentry
  rw [List.append_assoc] at hentry
  rcases List.mem_append.mp hentry with hentry | hentry
  · exact hothers entry hentry
  · exact hout entry hentry

/-- The entries of the transaction are what its fate leaves. -/
theorem Told.leaves_filter (htold : Told fate tid entries) :
    fate.Leaves ((entries.filter (·.transaction = tid)).map (·.record)) := by
  obtain ⟨front, own, behind, rfl, hout, hown, -, hleaves⟩ := htold
  have hnone : ∀ others : List LogEntry, (∀ entry ∈ others, entry ∈ front ++ behind) →
      others.filter (·.transaction = tid) = [] := by
    intro others hothers
    apply List.filter_eq_nil_iff.mpr
    intro entry hentry
    simpa using hout entry (hothers entry hentry)
  have hkept : own.filter (·.transaction = tid) = own :=
    List.filter_eq_self.mpr fun entry hentry => by simpa using hown entry hentry
  rw [List.filter_append, List.filter_append, hkept,
    hnone front fun _ => List.mem_append_left behind,
    hnone behind fun _ => List.mem_append_right front, List.nil_append, List.append_nil]
  exact hleaves

/-- A transaction that has not ended has no entry. -/
theorem Told.none (htold : Told fate tid entries) (hgoing : fate = .unborn ∨ fate = .running) :
    ∀ entry ∈ entries, entry.transaction ≠ tid := by
  have hfilter := List.map_eq_nil_iff.mp (Fate.leaves_of_going hgoing htold.leaves_filter)
  intro entry hentry
  simpa using List.filter_eq_nil_iff.mp hfilter entry hentry

end

/-- A transaction that committed without a change leaves its commit only. -/
theorem Fate.leaves_committed_nil {records : List LogRecord}
    (hleaves : (Fate.committed []).Leaves records) : records = [.commit] := by
  cases hleaves with
  | @committed _ order updates _ hpages hupdates =>
      have hnone : order = [] := List.eq_nil_iff_forall_not_mem.mpr fun page hpage =>
        List.not_mem_nil ((hpages page).mp hpage)
      subst hnone
      cases hupdates
      rfl

/-! ## Chronicles -/

/-- What the transactions of a run changed, and what has become of them. -/
structure Chronicle where
  ledger : Ledger
  fate : TransactionId → Fate

/-- The transaction that performs the operation. -/
def Operation.by? : Operation → Option TransactionId
  | .getPage tid _ _ _ => some tid
  | .insert tid _ _ => some tid
  | .delete tid _ => some tid
  | .scan tid _ => some tid
  | .commit tid => some tid
  | .abort tid => some tid
  | .abandon tid => some tid
  | .complete tid _ => some tid
  | .release tid _ => some tid
  | .flushPagesOf tid => some tid
  | _ => none

namespace Chronicle

/-- Nothing has happened. -/
def empty : Chronicle :=
  ⟨.empty, fun _ => .unborn⟩

/-- What becomes of which transaction with an operation that gets this answer. -/
def becomes (chronicle : Chronicle) :
    Operation → Except StoreError Answer → Option (TransactionId × Fate)
  | .begin, .ok (.transaction tid) => some (tid, .running)
  | .commit tid, .ok _ => some (tid, .committed ((chronicle.ledger.pending tid).map (·.place.page)))
  | .commit tid, .error _ => some (tid, .failed)
  | .abort tid, _ => some (tid, .aborted)
  | .abandon tid, _ => some (tid, .aborted)
  | _, _ => none

/-- The chronicle after an operation that gets this answer. -/
def note (chronicle : Chronicle) (operation : Operation) (answer : Except StoreError Answer) :
    Chronicle where
  ledger := chronicle.ledger.note (Event.of operation answer)
  fate tid :=
    match chronicle.becomes operation answer with
    | some (who, fate) => if tid = who then fate else chronicle.fate tid
    | none => chronicle.fate tid

variable {chronicle : Chronicle} {operation : Operation} {answer : Except StoreError Answer}
  {tid : TransactionId} {fate : Fate}

theorem fate_note_self (hbecomes : chronicle.becomes operation answer = some (tid, fate)) :
    (chronicle.note operation answer).fate tid = fate := by
  simp [note, hbecomes]

theorem fate_note_other (hbecomes : chronicle.becomes operation answer = some (tid, fate))
    {other : TransactionId} (hother : other ≠ tid) :
    (chronicle.note operation answer).fate other = chronicle.fate other := by
  simp [note, hbecomes, hother]

/-- Only beginnings and ends matter. -/
theorem fate_note_of_silent (hsilent : operation.logs = false)
    (hbegin : operation.isBegin = false) :
    (chronicle.note operation answer).fate = chronicle.fate := by
  have hbecomes : chronicle.becomes operation answer = none := by
    cases operation with
    | begin => exact absurd hbegin (by simp [Operation.isBegin])
    | commit who => exact absurd hsilent (by simp [Operation.logs])
    | abort who => exact absurd hsilent (by simp [Operation.logs])
    | abandon who => exact absurd hsilent (by simp [Operation.logs])
    | _ => rfl
  funext tid
  simp [note, hbecomes]

end Chronicle

namespace Store

open HeapStore.Action

/-- The chronicle after some turns. -/
def chronicled (store : Store) (chronicle : Chronicle) : List Turn → Chronicle
  | [] => chronicle
  | turn :: turns =>
    (store.turn turn).2.chronicled (chronicle.note turn.operation (store.turn turn).1) turns

/-- The chronicle of a run. -/
def chronicle (store : Store) (turns : List Turn) : Chronicle :=
  store.chronicled .empty turns

/-- The transactions that work or end in these turns are running. -/
def Lawful (store : Store) (chronicle : Chronicle) : List Turn → Prop
  | [] => True
  | turn :: turns =>
    (∀ tid ∈ turn.operation.by?, chronicle.fate tid = .running) ∧
      (store.turn turn).2.Lawful (chronicle.note turn.operation (store.turn turn).1) turns

instance decidableLawful (store : Store) (chronicle : Chronicle) (turns : List Turn) :
    Decidable (store.Lawful chronicle turns) :=
  match turns with
  | [] => inferInstanceAs (Decidable True)
  | turn :: rest =>
    -- not by trying all numbers
    let _ := Option.decidableForallMem (p := (chronicle.fate · = .running)) turn.operation.by?
    let _ := decidableLawful (store.turn turn).2
      (chronicle.note turn.operation (store.turn turn).1) rest
    inferInstanceAs (Decidable (_ ∧ _))

/-- The largest number of a transaction that was in the log when it was opened. -/
def largest (store : Store) : Nat :=
  (store.log.recovered.map UInt64.toNat).getD 0

variable {store after start : Store} {changed still : List Page} {tid : TransactionId}
  {chronicle : Chronicle} {begun : Nat} {added : List LogEntry}

/-- What holds of a store in a run of turns: its rows are accounted for, and its log tells the
chronicle behind what was in it at the start. -/
structure Recorded (start : Store) (begun : Nat) (chronicle : Chronicle) (store : Store)
    (changed : List Page) (added : List LogEntry) : Prop where
  accounted : Accounted (start.catalog.rows start.disk) chronicle.ledger store changed
  claims : chronicle.ledger.Claims (store.plain changed).standing
  size : store.catalog.pageSize ≤ maxPageSize
  location : store.log.location ≠ []
  log : store.log.Extends start.logContent.toBytes store.logContent added
  chains : store.log.last = []
  told : ∀ tid, Told (chronicle.fate tid) tid added
  next : store.nextTransaction = UInt64.ofNat (start.largest + begun + 1)
  born : ∀ tid, chronicle.fate tid ≠ .unborn →
    start.largest < tid.toNat ∧ tid.toNat ≤ start.largest + begun

namespace Recorded

theorem writable (hrecorded : Recorded start begun chronicle store changed added)
    (hsmall : store.catalog.Small store.disk) : (store.plain changed).Writable :=
  ⟨hrecorded.accounted.coherent.sound, hsmall, hrecorded.size⟩

/-- Writes leave records behind those that were there, and no other trace that matters here. -/
theorem extended (hrecorded : Recorded start begun chronicle store changed added)
    {may : TableId → Prop} {marks : List Mark}
    (hwrote : (store.plain changed).Wrote may marks (after.plain still)) :
    ∃ new, after.log.Extends start.logContent.toBytes after.logContent (added ++ new) ∧
      new.map LogEntry.mark = marks ∧ Log.Chained [] new ∧
      after.log.last = Log.chains [] new := by
  obtain ⟨new, hlog, hmarks, hchained, hlast⟩ := hwrote.writes.extends
    hrecorded.accounted.coherent.sound.apart hrecorded.location hrecorded.log
  have hchains : (store.plain changed).files.log.last = [] := hrecorded.chains
  rw [hchains] at hchained hlast
  exact ⟨new, hlog, hmarks, hchained, hlast⟩

theorem size_of_wrote (hrecorded : Recorded start begun chronicle store changed added)
    {may : TableId → Prop} {marks : List Mark}
    (hwrote : (store.plain changed).Wrote may marks (after.plain still)) :
    after.catalog.pageSize ≤ maxPageSize ∧ after.log.location ≠ [] := by
  have hcatalog : after.catalog = store.catalog := hwrote.catalog
  have hlocation : after.log.location = store.log.location := hwrote.writes.location
  rw [hcatalog, hlocation]
  exact ⟨hrecorded.size, hrecorded.location⟩

/-- A turn that neither begins nor ends a transaction leaves the log alone. -/
theorem turn_of_silent (hrecorded : Recorded start begun chronicle store changed added)
    (hsmall : store.catalog.Small store.disk) {operation : Operation}
    (htransactional : operation.Transactional) (hsilent : operation.logs = false)
    (hbegin : operation.isBegin = false) :
    ∃ still, Recorded start begun
      (chronicle.note operation (store.turn (.step operation)).1)
      (store.turn (.step operation)).2 still added := by
  have hfits : (Turn.step operation).Fits store := trivial
  obtain ⟨still, haccounted, hconducts, hplain⟩ :=
    hrecorded.accounted.turn hsmall hfits htransactional
  have hwrote : (store.plain changed).Wrote operation.grows []
      ((store.plain changed).step operation).2 :=
    PlainStore.wrote_step_of_silent hsmall hsilent hbegin
  have hstep : (store.plain changed).turn (.step operation)
      = (store.plain changed).step operation := rfl
  rw [hstep] at hplain
  rw [hplain] at hwrote
  obtain ⟨new, hlog, hmarks, -, hlast⟩ := hrecorded.extended hwrote
  obtain rfl := List.map_eq_nil_iff.mp hmarks
  have hfate : (chronicle.note operation (store.turn (.step operation)).1).fate
      = chronicle.fate := Chronicle.fate_note_of_silent hsilent hbegin
  obtain ⟨hsize, hlocation⟩ := hrecorded.size_of_wrote hwrote
  refine ⟨still, haccounted, hrecorded.claims.of_happens hconducts.happens, hsize, hlocation, ?_,
    hlast, ?_, hwrote.next.trans hrecorded.next, ?_⟩
  · rwa [List.append_nil] at hlog
  · rw [hfate]
    exact hrecorded.told
  · rw [hfate]
    exact hrecorded.born

/-- A transaction that begins has no record yet: its number is larger than all that were given. -/
theorem turn_of_begin (hrecorded : Recorded start begun chronicle store changed added)
    (hids : start.largest + begun + 1 < UInt64.size) :
    ∃ still, Recorded start (begun + 1) (chronicle.note .begin (store.turn (.step .begin)).1)
      (store.turn (.step .begin)).2 still added := by
  have hbecomes : chronicle.becomes .begin (store.turn (.step .begin)).1
      = some (store.nextTransaction, .running) := rfl
  have hnumber : store.nextTransaction.toNat = start.largest + begun + 1 := by
    rw [hrecorded.next]
    exact UInt64.toNat_ofNat_of_lt' hids
  have hunborn : chronicle.fate store.nextTransaction = .unborn := by
    by_contra hborn
    have hle := (hrecorded.born _ hborn).2
    omega
  refine ⟨changed, ?_, hrecorded.claims, hrecorded.size, hrecorded.location, hrecorded.log,
    hrecorded.chains, ?_, ?_, ?_⟩
  · exact ⟨hrecorded.accounted.coherent.congr rfl rfl rfl rfl,
      ⟨hrecorded.accounted.guarded.locks, hrecorded.accounted.guarded.owned⟩,
      hrecorded.accounted.accounts⟩
  · intro tid
    by_cases htid : tid = store.nextTransaction
    · subst htid
      rw [Chronicle.fate_note_self hbecomes]
      have htold := hrecorded.told store.nextTransaction
      rw [hunborn] at htold
      exact told_of_none (htold.none (.inl rfl)) .running
    · rw [Chronicle.fate_note_other hbecomes htid]
      exact hrecorded.told tid
  · show store.nextTransaction + 1 = _
    rw [hrecorded.next]
    exact (UInt64.ofNat_add _ 1).symm
  · intro tid
    by_cases htid : tid = store.nextTransaction
    · subst htid
      omega
    · rw [Chronicle.fate_note_other hbecomes htid]
      intro hborn
      have hbefore := hrecorded.born tid hborn
      omega

/-- A running transaction that ends leaves what its fate leaves, linked and behind all other
records. -/
theorem turn_of_end (hrecorded : Recorded start begun chronicle store changed added)
    (hsmall : store.catalog.Small store.disk) {turn : Turn} (hfits : turn.Fits store)
    (htransactional : turn.operation.Transactional) {may : TableId → Prop} {fate : Fate}
    {updates : List LogRecord} {ending : LogRecord} (hrunning : chronicle.fate tid = .running)
    (hbecomes : chronicle.becomes turn.operation (store.turn turn).1 = some (tid, fate))
    (hwrote : (store.plain changed).Wrote may (marksOf tid (updates ++ [ending]))
      ((store.plain changed).turn turn).2)
    (hupdates : ∀ record ∈ updates, record.isUpdate = true) (hending : ending.isUpdate = false)
    (hleaves : fate.Leaves (updates ++ [ending])) :
    ∃ still new, Recorded start begun (chronicle.note turn.operation (store.turn turn).1)
      (store.turn turn).2 still (added ++ new) := by
  obtain ⟨still, haccounted, hconducts, hplain⟩ :=
    hrecorded.accounted.turn hsmall hfits htransactional
  rw [hplain] at hwrote
  obtain ⟨new, hlog, hmarks, hchained, hlast⟩ := hrecorded.extended hwrote
  obtain ⟨hlinked, hchains⟩ := Log.linked_of_chained hupdates hending hmarks hchained
  obtain ⟨hsize, hlocation⟩ := hrecorded.size_of_wrote hwrote
  have hown : ∀ entry ∈ new, entry.transaction = tid := by
    intro entry hentry
    have hmark : entry.mark ∈ marksOf tid (updates ++ [ending]) :=
      hmarks ▸ List.mem_map_of_mem hentry
    obtain ⟨record, -, hrecord⟩ := List.mem_map.mp hmark
    exact (Prod.mk.inj hrecord).1.symm
  have hrecords : new.map (·.record) = updates ++ [ending] := by
    have hsnd := congrArg (List.map Prod.snd) hmarks
    simpa [marksOf, LogEntry.mark, Function.comp_def] using hsnd
  refine ⟨still, new, haccounted, hrecorded.claims.of_happens hconducts.happens, hsize, hlocation,
    hlog, by rw [hlast, hchains]; rfl, ?_, hwrote.next.trans hrecorded.next, ?_⟩
  · intro other
    by_cases hother : other = tid
    · subst hother
      rw [Chronicle.fate_note_self hbecomes]
      have hnone := (hrecorded.told other).none (.inr hrunning)
      exact ⟨added, new, [], by simp, by simpa using hnone, hown, hlinked, hrecords ▸ hleaves⟩
    · rw [Chronicle.fate_note_other hbecomes hother]
      apply (hrecorded.told other).append
      intro entry hentry heq
      exact hother (heq.symm.trans (hown entry hentry))
  · intro other
    by_cases hother : other = tid
    · subst hother
      exact fun _ => hrecorded.born other (by rw [hrunning]; simp)
    · rw [Chronicle.fate_note_other hbecomes hother]
      exact hrecorded.born other

/-- The pages that a transaction changed are those with pending edits of it. -/
theorem mem_pages_iff (hrecorded : Recorded start begun chronicle store changed added)
    {order : List PageAddress} (horder : order.Perm (store.pool.dirtiedBy tid))
    (page : PageAddress) :
    page ∈ order ↔ page ∈ (chronicle.ledger.pending tid).map (·.place.page) := by
  have hcoherent := hrecorded.accounted.coherent
  rw [horder.mem_iff, ← hcoherent.dirtiedBy_eq,
    PlainStore.mem_dirtiedBy_iff hcoherent.sound, List.mem_map]
  constructor
  · exact fun howner => hrecorded.claims page tid howner
  · rintro ⟨edit, hedit, rfl⟩
    exact hrecorded.accounted.accounts.owned tid edit hedit

theorem turn_of_commit (hrecorded : Recorded start begun chronicle store changed added)
    (hsmall : store.catalog.Small store.disk) (hrunning : chronicle.fate tid = .running)
    {order : List PageAddress} (horder : order.Perm (store.pool.dirtiedBy tid)) :
    ∃ still new, Recorded start begun
      (chronicle.note (.commit tid) (store.turn (.commit tid order)).1)
      (store.turn (.commit tid order)).2 still (added ++ new) := by
  have hcoherent := hrecorded.accounted.coherent
  have hfits : (Turn.commit tid order).Fits store := horder
  have hplain : order.Perm ((store.plain changed).dirtiedBy tid) := by
    rw [hcoherent.dirtiedBy_eq]
    exact horder
  have htransactional : (Turn.commit tid order).operation.Transactional := trivial
  have hanswer := (turn_agree hcoherent hsmall htransactional.fixed).1 rfl
  simp only [PlainStore.turn, PlainStore.Outcome.answering] at hanswer
  rcases PlainStore.wrote_endIn_commit (fun _ => False) (hrecorded.writable hsmall) hplain with
    ⟨hok, updates, hupdates, hwrote⟩ |
    ⟨⟨error, herror⟩, done, updates, -, hsome, hupdates, hwrote⟩
  · have hbecomes : chronicle.becomes (Turn.commit tid order).operation
        (store.turn (.commit tid order)).1
          = some (tid, .committed ((chronicle.ledger.pending tid).map (·.place.page))) := by
      rw [hanswer, hok]
      rfl
    have hnodup : order.Nodup :=
      hplain.nodup_iff.mpr (PlainStore.nodup_dirtiedBy hcoherent.sound tid)
    exact hrecorded.turn_of_end hsmall hfits htransactional hrunning hbecomes hwrote
      (isUpdate_of_updates hupdates) rfl
      (.committed hnodup (hrecorded.mem_pages_iff horder) hupdates)
  · have hbecomes : chronicle.becomes (Turn.commit tid order).operation
        (store.turn (.commit tid order)).1 = some (tid, .failed) := by
      rw [hanswer, herror]
      rfl
    have hwritten : updates ≠ [] := by
      rintro rfl
      cases hupdates
      exact hsome rfl
    exact hrecorded.turn_of_end hsmall hfits htransactional hrunning hbecomes hwrote
      (isUpdate_of_updates hupdates) rfl (.failed hwritten (isUpdate_of_updates hupdates))

/-- Every turn of a lawful run is recorded. -/
theorem turn (hrecorded : Recorded start begun chronicle store changed added)
    (hsmall : store.catalog.Small store.disk) {turn : Turn} (hfits : turn.Fits store)
    (htransactional : turn.operation.Transactional)
    (hlawful : ∀ tid ∈ turn.operation.by?, chronicle.fate tid = .running)
    (hids : start.largest + begun + turn.operation.isBegin.toNat < UInt64.size) :
    ∃ still new, Recorded start (begun + turn.operation.isBegin.toNat)
      (chronicle.note turn.operation (store.turn turn).1) (store.turn turn).2 still
      (added ++ new) := by
  cases turn with
  | commit tid order => exact hrecorded.turn_of_commit hsmall (hlawful tid rfl) hfits
  | step operation =>
      cases hlogs : operation.logs with
      | false =>
          cases hbegin : operation.isBegin with
          | false =>
              obtain ⟨still, hafter⟩ :=
                hrecorded.turn_of_silent hsmall htransactional hlogs hbegin
              refine ⟨still, [], ?_⟩
              rw [List.append_nil]
              simpa [Turn.operation, hbegin] using hafter
          | true =>
              cases operation with
              | begin =>
                  obtain ⟨still, hafter⟩ := hrecorded.turn_of_begin hids
                  refine ⟨still, [], ?_⟩
                  rw [List.append_nil]
                  exact hafter
              | _ => exact absurd hbegin (by simp [Operation.isBegin])
      | true =>
          cases operation with
          | commit tid =>
              have hafter := hrecorded.turn_of_commit hsmall (hlawful tid rfl)
                (.refl (store.pool.dirtiedBy tid))
              rw [turn_commit] at hafter
              exact hafter
          | abort tid =>
              have hwrote := PlainStore.wrote_endIn_abort (fun _ => False)
                (hrecorded.writable hsmall) tid ((store.plain changed).dirtiedBy tid)
              rw [← PlainStore.endWith_eq_endIn] at hwrote
              exact hrecorded.turn_of_end hsmall hfits htransactional (hlawful tid rfl) rfl hwrote
                (fun _ hrecord => absurd hrecord List.not_mem_nil) rfl .aborted
          | abandon tid =>
              have hwrote : (store.plain changed).Wrote (fun _ => False)
                  (marksOf tid ([] ++ [.abort])) ((store.plain changed).finish tid false).2 :=
                PlainStore.wrote_finish_abort (hrecorded.writable hsmall) tid
              exact hrecorded.turn_of_end hsmall hfits htransactional (hlawful tid rfl) rfl hwrote
                (fun _ hrecord => absurd hrecord List.not_mem_nil) rfl .aborted
          | complete tid commit => exact htransactional.elim
          | flushPage address => exact htransactional.elim
          | flushPagesOf tid => exact htransactional.elim
          | flushAll => exact htransactional.elim
          | _ => exact absurd hlogs (by simp [Operation.logs])

theorem follow (turns : List Turn)
    (hrecorded : Recorded start begun chronicle store changed added) (hadmits : store.Admits turns)
    (htransactional : ∀ turn ∈ turns, turn.operation.Transactional)
    (hlawful : store.Lawful chronicle turns)
    (hids : start.largest + begun + turns.countP (·.operation.isBegin) < UInt64.size) :
    ∃ begun still new, Recorded start begun (store.chronicled chronicle turns)
      (store.follow turns) still (added ++ new) := by
  induction turns generalizing begun chronicle store changed added with
  | nil =>
      refine ⟨begun, changed, [], ?_⟩
      rw [List.append_nil]
      exact hrecorded
  | cons turn turns ih =>
      obtain ⟨hsmall, hfits, hrest⟩ := hadmits
      have hcount : (turn :: turns).countP (·.operation.isBegin)
          = turn.operation.isBegin.toNat + turns.countP (·.operation.isBegin) := by
        rw [List.countP_cons]
        cases turn.operation.isBegin <;> simp [Nat.add_comm]
      rw [hcount] at hids
      obtain ⟨mid, new, hmid⟩ := hrecorded.turn hsmall hfits
        (htransactional turn List.mem_cons_self) hlawful.1 (by omega)
      obtain ⟨total, still, later, hlast⟩ := ih hmid hrest
        (fun other hother => htransactional other (List.mem_cons_of_mem turn hother)) hlawful.2
        (by omega)
      refine ⟨total, still, new ++ later, ?_⟩
      rw [← List.append_assoc]
      exact hlast

end Recorded

/-! ## Runs -/

/-- When a store was opened no transaction has a record behind what was in the log. -/
theorem Opened.recorded (hopened : Opened start)
    (hapart : start.catalog.Apart start.log.location) : Recorded start 0 .empty start [] [] := by
  have hbegun := hopened.begun
  refine ⟨hopened.fresh.accounted hapart, ?_, hbegun.size, hbegun.location, hbegun.log.extends,
    hbegun.log.last, fun tid => told_of_none (by simp) .unborn, ?_, ?_⟩
  · intro page tid howner
    exact absurd howner
      (by simp [PlainStore.standing, PlainStore.owner?, PlainStore.changed?, plain])
  · rw [hbegun.first, largest]
    cases start.log.recovered with
    | none => rfl
    | some most => simp [UInt64.ofNat_add]
  · intro tid hborn
    exact absurd rfl hborn

/-- A transaction in the log when it was opened is none of those that began since. -/
theorem Recorded.unborn (hrecorded : Recorded start begun chronicle store changed added)
    (hbegins : start.log.Begins start.logContent) {old : List LogEntry}
    (hold : start.records = .ok old) (hborn : chronicle.fate tid ≠ .unborn) :
    ∀ entry ∈ old, entry.transaction ≠ tid := by
  rintro entry hentry rfl
  obtain ⟨most, hrecovered, hle⟩ := hbegins.covers old hold entry hentry
  have hlater := (hrecorded.born _ hborn).1
  rw [UInt64.le_iff_toNat_le] at hle
  simp only [largest, hrecovered, Option.map_some, Option.getD_some] at hlater
  omega

/-- As long as numbers for transactions have not run out, and no table reaches the limit of 32 bits:
the log tells of each transaction what has become of it.  A turn is a whole call, so that the calls
of transactions come one after the other, in any order, and none begins inside another.  An
operation that ends a transaction takes its pages in the order of their addresses, and a commit may
take them in any other one. -/
theorem log_tells (hopened : Opened start) (hapart : start.catalog.Apart start.log.location)
    (turns : List Turn) (htransactional : ∀ turn ∈ turns, turn.operation.Transactional)
    (hadmits : start.Admits turns) (hlawful : start.Lawful .empty turns)
    (hids : start.largest + turns.countP (·.operation.isBegin) < UInt64.size) :
    ∃ added, (start.follow turns).log.Extends start.logContent.toBytes
        (start.follow turns).logContent added ∧
      (∀ tid, Told ((start.chronicle turns).fate tid) tid added) ∧
      ∀ old, start.records = .ok old → (start.follow turns).logContent.size < UInt64.size →
        (start.follow turns).records = .ok (old ++ added) ∧
          ∀ tid, (start.chronicle turns).fate tid ≠ .unborn →
            Told ((start.chronicle turns).fate tid) tid (old ++ added) := by
  obtain ⟨begun, still, added, hrecorded⟩ := (hopened.recorded hapart).follow turns hadmits
    htransactional hlawful (by rwa [Nat.add_zero])
  rw [List.nil_append] at hrecorded
  have hbegins := hopened.begun.log
  refine ⟨added, hrecorded.log, hrecorded.told, fun old hold hsize => ⟨?_, fun tid hborn => ?_⟩⟩
  · exact hrecorded.log.records (hrecorded.log.fits_of_size hsize) hbegins.next hold
  · exact (hrecorded.told tid).after (hrecorded.unborn hbegins hold hborn)

/-- Three transactions: one commits a page, one fails to, and one is dropped. -/
theorem log_tells_sample :
    let turns := [.step .begin, .step .begin, .step (.insert 1 sampleTable (sampleRow 7)),
      .step .begin, .commit 1 [⟨sampleTable, 0⟩], .step (.insert 2 sampleTable (sampleRow 8)),
      .step (.enable flushAfterForce), .commit 2 [⟨sampleTable, 0⟩], .step (.abandon 3)]
    (sample.chronicle turns).fate 2 = .failed ∧
    ∃ added, (sample.follow turns).log.Extends sample.logContent.toBytes
        (sample.follow turns).logContent added ∧
      (∀ tid, Told ((sample.chronicle turns).fate tid) tid added) ∧
      ∀ old, sample.records = .ok old → (sample.follow turns).logContent.size < UInt64.size →
        (sample.follow turns).records = .ok (old ++ added) ∧
          ∀ tid, (sample.chronicle turns).fate tid ≠ .unborn →
            Told ((sample.chronicle turns).fate tid) tid (old ++ added) :=
  ⟨by decide +kernel, log_tells opened_sample (by decide +kernel) _
    (by simp [Turn.operation, Operation.Transactional, valid_sampleRow]) (by decide +kernel)
    (by decide +kernel) (by decide +kernel)⟩

/-! ## Numbers of transactions run out -/

/-- The records of two transactions: the first one, and the last but one that has a number. -/
def wornEntries : List LogEntry :=
  [⟨0, 1, none, .commit⟩, ⟨25, 18446744073709551614, none, .commit⟩]

/-- A disk with these records in its log. -/
def wornDisk : Disk :=
  ⟨[(["log"], .file (.ofBytes (Log.bytesOf (wornEntries.map LogEntry.frame))))], []⟩

/-- The store that is opened on this disk. -/
def worn : Store where
  disk := wornDisk.write ["log"] ((wornDisk.content ["log"]).take 50)
  armed := .unarmed
  log := ⟨["log"], 50, [], some 18446744073709551614⟩
  catalog := .empty Settings.standard.pageSize
  pool := ⟨.standard, [], [], 0, .empty⟩
  nextTransaction := 18446744073709551615

theorem opened_worn : Opened worn := by
  have hfits : ∀ frame ∈ wornEntries.map LogEntry.frame, frame.Fits := by
    simp only [wornEntries, List.map_cons, List.map_nil, List.forall_mem_cons]
    exact ⟨⟨by decide, by decide⟩, ⟨by decide, by decide⟩, by simp⟩
  have hbytes : (wornDisk.content ["log"]).toBytes
      = Log.bytesOf (wornEntries.map LogEntry.frame) ++ [] := by decide +kernel
  have hcontent := Log.openContent_frames hfits hbytes Log.ends_nil ["log"]
  have hlog : Log.openFile wornDisk "log" = (.ok worn.log, worn.disk) :=
    Log.openFile_eq_ok_iff.mpr ⟨wornDisk, _, rfl, hcontent, rfl⟩
  have hopen : openAt wornDisk .unarmed "log" .standard = (.ok worn, worn.disk) := by
    simp only [openAt, hlog]
    rfl
  exact .opened hopen

/-- The third transaction that begins has the number of a transaction in the log. -/
theorem numbers_run_out :
    ∃ (start : Store) (turns : List Turn) (entries : List LogEntry), Opened start ∧
      start.catalog.Apart start.log.location ∧
      (∀ turn ∈ turns, turn.operation.Transactional) ∧ start.Admits turns ∧
      start.Lawful .empty turns ∧ (start.follow turns).records = .ok entries ∧
      (start.chronicle turns).fate 1 = .committed [] ∧ ¬ Told (.committed []) 1 entries := by
  let turns : List Turn := [.step .begin, .step .begin, .step .begin, .step (.commit 1)]
  let entries := wornEntries ++ [⟨50, 1, none, .commit⟩]
  have hholds : (worn.follow turns).log.Holds (worn.follow turns).logContent entries :=
    ⟨by decide +kernel, ⟨rfl, rfl, rfl, trivial⟩, rfl, by decide +kernel, by decide +kernel,
      by decide +kernel⟩
  refine ⟨worn, turns, entries, opened_worn, by decide +kernel,
    by simp [turns, Turn.operation, Operation.Transactional], by decide +kernel, by decide +kernel,
    hholds.records_eq (hholds.fits_of_size (by decide +kernel)), by decide +kernel, ?_⟩
  intro htold
  exact absurd (Fate.leaves_committed_nil htold.leaves_filter) (by decide +kernel)

/-! ## Numbers of pages run out -/

/-- What is on record of a transaction that begins, inserts twice and is dropped. -/
theorem fate_of_dropped (hbegin : (start.turn (.step .begin)).1 = .ok (.transaction tid))
    (id : TableId) (row other : Row) :
    let turns := [.step .begin, .step (.insert tid id row), .step (.insert tid id other),
      .step (.abandon tid)]
    start.Lawful .empty turns ∧ (start.chronicle turns).fate tid = .aborted := by
  have hrunning : (Chronicle.empty.note .begin (.ok (.transaction tid))).fate tid = .running :=
    Chronicle.fate_note_self rfl
  refine ⟨?_, Chronicle.fate_note_self rfl⟩
  simp only [Lawful, Turn.operation, Operation.by?, hbegin, Option.mem_some_iff, forall_eq']
  refine ⟨by simp, hrunning, ?_, ?_, trivial⟩
  · rw [Chronicle.fate_note_of_silent rfl rfl, hrunning]
  · rw [Chronicle.fate_note_of_silent rfl rfl, Chronicle.fate_note_of_silent rfl rfl, hrunning]

/-- A transaction fills a table for which one page number is left, and inserts once more: the table
then has as many pages as there are numbers, which are counted as none.  When the transaction is
dropped its page cannot be read again, so that there is no record of its end. -/
theorem pages_run_out :
    ∃ (start : Store) (turns : List Turn), Opened start ∧
      start.catalog.Apart start.log.location ∧
      (∀ turn ∈ turns, turn.operation.Transactional) ∧
      (∀ turn ∈ turns, ∀ store, turn.Fits store) ∧ start.Lawful .empty turns ∧
      start.largest + turns.countP (·.operation.isBegin) < UInt64.size ∧
      (start.follow turns).records = .ok [] ∧ (start.chronicle turns).fate 1 = .aborted ∧
      ¬ Told .aborted 1 [] := by
  have hcoherent := opened_lastRoom.fresh.coherent (by decide +kernel)
  have hbegin : (lastRoom.turn (.step .begin)).1 = .ok (.transaction 1) := by decide +kernel
  obtain ⟨hlawful, hfate⟩ := fate_of_dropped hbegin sampleTable (sampleRow 7) (sampleRow 8)
  have hrecords := plain_lastRoom.dropped hcoherent small_lastRoom
  have hnone : lastRoom.records = .ok [] := by decide +kernel
  refine ⟨lastRoom, _, opened_lastRoom, by decide +kernel, ?_, ?_, hlawful, by decide +kernel,
    hrecords.trans hnone, hfate, ?_⟩
  · simp [Turn.operation, Operation.Transactional, valid_sampleRow]
  · simp [Turn.Fits]
  · intro htold
    have hleaves := htold.leaves_filter
    cases hleaves

end Store

end HeapStore
