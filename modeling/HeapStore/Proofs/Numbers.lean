import HeapStore.Proofs.Journal

/-!
# Numbers of transactions in a session

A database that was opened numbers its transactions on from the largest one in the log.  Each number
that it gives out is above all those given before (`Store.Numbered`), as long as it does not come to
the largest number of 64 bits.  A transaction writes its records in one turn, when it ends, and so
those in the log with its number are linked one to the next (`Store.Underway`).
-/

namespace HeapStore

/-- The number that a beginning gives. -/
def Operation.gives : Operation → Except StoreError Answer → Option TransactionId
  | .begin, .ok (.transaction tid) => some tid
  | _, _ => none

theorem Operation.gives_eq_none {operation : Operation} (hbegin : operation.isBegin = false)
    (answer : Except StoreError Answer) : operation.gives answer = none := by
  cases operation with
  | begin => exact absurd hbegin (by simp [isBegin])
  | _ => rfl

/-- Only ends of transactions write to the log. -/
theorem Chronicle.becomes_of_logs (chronicle : Chronicle) {operation : Operation}
    (htransactional : operation.Transactional) (hlogs : operation.logs = true)
    {tid : TransactionId} (hby : operation.by? = some tid) (answer : Except StoreError Answer) :
    ∃ fate, chronicle.becomes operation answer = some (tid, fate) ∧ fate ≠ .running := by
  cases operation with
  | commit who =>
      obtain rfl := Option.some.inj hby
      cases answer with
      | ok _ => exact ⟨_, rfl, by simp⟩
      | error _ => exact ⟨_, rfl, by simp⟩
  | abort who =>
      obtain rfl := Option.some.inj hby
      exact ⟨.aborted, rfl, by simp⟩
  | abandon who =>
      obtain rfl := Option.some.inj hby
      exact ⟨.aborted, rfl, by simp⟩
  | complete _ _ => exact htransactional.elim
  | flushPage _ => exact htransactional.elim
  | flushPagesOf _ => exact htransactional.elim
  | flushAll => exact htransactional.elim
  | _ => exact absurd hlogs (by simp [Operation.logs])

namespace Store

open HeapStore.Action

variable {start store : Store} {turns before behind : List Turn} {turn : Turn}
  {added : List LogEntry} {entry : LogEntry} {tid : TransactionId}

/-! ## Runs of a session -/

/-- The numbers that are given out in these turns, in order. -/
def handed (store : Store) : List Turn → List TransactionId
  | [] => []
  | turn :: turns =>
    (turn.operation.gives (store.turn turn).1).toList ++ (store.turn turn).2.handed turns

/-- The turns fit the stores that they come to. -/
def Fitting (store : Store) : List Turn → Prop
  | [] => True
  | turn :: turns => turn.Fits store ∧ (store.turn turn).2.Fitting turns

instance decidableFitting (store : Store) (turns : List Turn) : Decidable (store.Fitting turns) :=
  match turns with
  | [] => inferInstanceAs (Decidable True)
  | turn :: rest =>
    let _ := decidableFitting (store.turn turn).2 rest
    inferInstanceAs (Decidable (_ ∧ _))

/-- One of these turns is of the transaction of this record, and the log went over it then. -/
def Wrote (start : Store) (turns : List Turn) (entry : LogEntry) : Prop :=
  ∃ before turn behind, turns = before ++ turn :: behind ∧
    turn.operation.by? = some entry.transaction ∧
    (start.follow before).log.next ≤ entry.lsn ∧
    entry.stop ≤ (start.follow (before ++ [turn])).log.next

theorem Wrote.append (hwrote : start.Wrote turns entry) (behind : List Turn) :
    start.Wrote (turns ++ behind) entry := by
  obtain ⟨before, turn, rest, rfl, hby, hlsn, hstop⟩ := hwrote
  exact ⟨before, turn, rest ++ behind, by simp, hby, hlsn, hstop⟩

theorem follow_concat (start : Store) (turns : List Turn) (turn : Turn) :
    start.follow (turns ++ [turn]) = ((start.follow turns).turn turn).2 := by
  rw [follow, List.foldl_append]
  rfl

theorem handed_concat (start : Store) (turns : List Turn) (turn : Turn) :
    start.handed (turns ++ [turn]) = start.handed turns ++
      (turn.operation.gives ((start.follow turns).turn turn).1).toList := by
  induction turns generalizing start with
  | nil => simp [handed, follow]
  | cons first turns ih =>
      simp only [List.cons_append, handed, ih, List.append_assoc]
      rfl

theorem chronicled_concat (start : Store) (chronicle : Chronicle) (turns : List Turn)
    (turn : Turn) :
    start.chronicled chronicle (turns ++ [turn]) =
      (start.chronicled chronicle turns).note turn.operation
        ((start.follow turns).turn turn).1 := by
  induction turns generalizing start chronicle with
  | nil => rfl
  | cons first turns ih => exact ih _ _

theorem lawful_concat {chronicle : Chronicle} :
    start.Lawful chronicle (turns ++ [turn]) ↔ start.Lawful chronicle turns ∧
      ∀ tid ∈ turn.operation.by?, (start.chronicled chronicle turns).fate tid = .running := by
  induction turns generalizing start chronicle with
  | nil => simp [Lawful, chronicled]
  | cons first turns ih => simp only [List.cons_append, Lawful, ih, chronicled, and_assoc]

theorem fitting_concat :
    start.Fitting (turns ++ [turn]) ↔ start.Fitting turns ∧ turn.Fits (start.follow turns) := by
  induction turns generalizing start with
  | nil => simp [Fitting, follow]
  | cons first turns ih =>
      simp only [List.cons_append, Fitting, ih, and_assoc]
      rfl

theorem chronicle_concat (start : Store) (turns : List Turn) (turn : Turn) :
    start.chronicle (turns ++ [turn]) =
      (start.chronicle turns).note turn.operation ((start.follow turns).turn turn).1 :=
  chronicled_concat start .empty turns turn

/-! ## Numbers of a session -/

/-- What holds of the numbers that were given out in some turns of a session. -/
structure Numbered (start : Store) (turns : List Turn) : Prop where
  born : ∀ tid, (start.chronicle turns).fate tid ≠ .unborn → tid ∈ start.handed turns
  rising : (start.handed turns).Pairwise (· < ·)
  given : ∀ tid ∈ start.handed turns,
    start.nextTransaction ≤ tid ∧ tid < (start.follow turns).nextTransaction
  first : start.nextTransaction ≤ (start.follow turns).nextTransaction

theorem numbered_nil (start : Store) : start.Numbered [] where
  born tid hborn := absurd rfl hborn
  rising := .nil
  given := by simp [handed]
  first := UInt64.le_refl _

/-- A number below the largest one has another one behind it. -/
theorem lt_add_one_of_lt {tid : TransactionId} (hid : tid.toNat < UInt64.size - 1) :
    tid < tid + 1 := by
  have hsize : UInt64.size = 18446744073709551616 := rfl
  have hone : (1 : UInt64).toNat = 1 := rfl
  rw [UInt64.lt_iff_toNat_lt, UInt64.toNat_add]
  omega

theorem becomes_begin (start : Store) (turns : List Turn) :
    (start.chronicle turns).becomes (Turn.step .begin).operation
        ((start.follow turns).turn (.step .begin)).1
      = some ((start.follow turns).nextTransaction, .running) :=
  rfl

/-- A transaction that begins gets a number above all that were given. -/
theorem Numbered.begin (hnumbered : start.Numbered turns)
    (hid : (start.follow turns).nextTransaction.toNat < UInt64.size - 1) :
    start.Numbered (turns ++ [.step .begin]) := by
  have hhanded : start.handed (turns ++ [.step .begin])
      = start.handed turns ++ [(start.follow turns).nextTransaction] :=
    handed_concat start turns (.step .begin)
  have hfollow : (start.follow (turns ++ [.step .begin])).nextTransaction
      = (start.follow turns).nextTransaction + 1 := by
    rw [follow_concat]
    rfl
  have hnext := lt_add_one_of_lt hid
  refine ⟨?_, ?_, ?_, ?_⟩
  · intro tid hborn
    rw [hhanded]
    by_cases hother : tid = (start.follow turns).nextTransaction
    · exact List.mem_append_right _ (List.mem_singleton.mpr hother)
    · rw [chronicle_concat, Chronicle.fate_note_other (becomes_begin start turns) hother] at hborn
      exact List.mem_append_left _ (hnumbered.born tid hborn)
  · rw [hhanded]
    refine List.pairwise_append.mpr ⟨hnumbered.rising, List.pairwise_singleton _ _, ?_⟩
    intro tid htid other hother
    rw [List.mem_singleton.mp hother]
    exact (hnumbered.given tid htid).2
  · intro tid htid
    rw [hhanded] at htid
    rw [hfollow]
    rcases List.mem_append.mp htid with htid | htid
    · obtain ⟨hlow, hhigh⟩ := hnumbered.given tid htid
      exact ⟨hlow, UInt64.lt_trans hhigh hnext⟩
    · rw [List.mem_singleton.mp htid]
      exact ⟨hnumbered.first, hnext⟩
  · rw [hfollow]
    exact UInt64.le_of_lt (UInt64.lt_of_le_of_lt hnumbered.first hnext)

theorem handed_of_other (hbegin : turn.operation.isBegin = false) :
    start.handed (turns ++ [turn]) = start.handed turns := by
  rw [handed_concat, Operation.gives_eq_none hbegin, Option.toList_none, List.append_nil]

/-- Other turns give out no number. -/
theorem Numbered.other (hnumbered : start.Numbered turns)
    (hbegin : turn.operation.isBegin = false)
    (hnext : (start.follow (turns ++ [turn])).nextTransaction
      = (start.follow turns).nextTransaction)
    (hborn : ∀ tid, (start.chronicle (turns ++ [turn])).fate tid ≠ .unborn →
      (start.chronicle turns).fate tid ≠ .unborn) : start.Numbered (turns ++ [turn]) := by
  refine ⟨?_, ?_, ?_, ?_⟩
  · rw [handed_of_other hbegin]
    exact fun tid htid => hnumbered.born tid (hborn tid htid)
  · rw [handed_of_other hbegin]
    exact hnumbered.rising
  · rw [handed_of_other hbegin, hnext]
    exact hnumbered.given
  · rw [hnext]
    exact hnumbered.first

/-! ## Records of a session -/

/-- Where the numbers in two rows of records differ, those with one number are in one of them. -/
theorem linked_of_apart {first second : List LogEntry}
    (hfirst : ∀ tid, Linked none (first.filter (·.transaction = tid)))
    (hsecond : ∀ tid, Linked none (second.filter (·.transaction = tid)))
    (hapart : ∀ a ∈ first, ∀ b ∈ second, a.transaction ≠ b.transaction) (tid : TransactionId) :
    Linked none ((first ++ second).filter (·.transaction = tid)) := by
  rw [List.filter_append]
  by_cases hsome : ∃ entry ∈ second, entry.transaction = tid
  · obtain ⟨entry, hentry, rfl⟩ := hsome
    have hnone : first.filter (·.transaction = entry.transaction) = [] := by
      apply List.filter_eq_nil_iff.mpr
      intro other hother
      simpa using hapart other hother entry hentry
    rw [hnone]
    exact hsecond entry.transaction
  · have hnone : second.filter (·.transaction = tid) = [] := by
      apply List.filter_eq_nil_iff.mpr
      intro entry hentry
      simpa using fun hsame => hsome ⟨entry, hentry, hsame⟩
    rw [hnone, List.append_nil]
    exact hfirst tid

/-- Linked records of one transaction are linked for each number. -/
theorem linked_of_own {entries : List LogEntry} (hlinked : Linked none entries)
    (hown : ∀ entry ∈ entries, entry.transaction = tid) (other : TransactionId) :
    Linked none (entries.filter (·.transaction = other)) := by
  by_cases hother : other = tid
  · rw [List.filter_eq_self.mpr fun entry hentry => by simp [hown entry hentry, hother]]
    exact hlinked
  · rw [List.filter_eq_nil_iff.mpr fun entry hentry => by
      simpa [hown entry hentry] using Ne.symm hother]
    trivial

/-- What holds after some turns of a session: these records came to the log.  Those of one
transaction were written in its turns and are linked, and there is none as long as it runs. -/
structure Underway (start : Store) (turns : List Turn) (added : List LogEntry) : Prop where
  numbered : start.Numbered turns
  sized : (start.follow turns).Sized
  log : (start.follow turns).log.Extends start.logContent.toBytes
    (start.follow turns).logContent added
  last : (start.follow turns).log.last = Log.chains [] added
  linked : ∀ tid, Linked none (added.filter (·.transaction = tid))
  wrote : ∀ entry ∈ added, entry.transaction ∈ start.handed turns ∧ start.Wrote turns entry
  ended : ∀ entry ∈ added, (start.chronicle turns).fate entry.transaction ≠ .running

theorem Opened.sized (hopened : Opened start)
    (hapart : start.catalog.Apart start.log.location) : start.Sized where
  sound := hopened.fresh.sound
  location := hopened.begun.location
  apart := hapart
  size := hopened.begun.size
  pages := by simp [hopened.fresh.resident]

theorem Opened.underway (hopened : Opened start)
    (hapart : start.catalog.Apart start.log.location) : start.Underway [] [] where
  numbered := numbered_nil start
  sized := hopened.sized hapart
  log := hopened.begun.log.extends
  last := hopened.begun.log.last
  linked _ := trivial
  wrote := by simp
  ended := by simp

namespace Underway

theorem begin (hunder : start.Underway turns added)
    (hid : (start.follow turns).nextTransaction.toNat < UInt64.size - 1) :
    start.Underway (turns ++ [.step .begin]) added := by
  have hsized := hunder.sized
  have hfollow : start.follow (turns ++ [.step .begin]) = { start.follow turns with
      nextTransaction := (start.follow turns).nextTransaction + 1 } :=
    follow_concat start turns (.step .begin)
  refine ⟨hunder.numbered.begin hid, ?_, ?_, ?_, hunder.linked, ?_, ?_⟩
  · rw [hfollow]
    exact ⟨⟨hsized.sound.pool, hsized.sound.catalog⟩, hsized.location, hsized.apart, hsized.size,
      hsized.pages⟩
  · rw [hfollow]
    exact hunder.log
  · rw [hfollow]
    exact hunder.last
  · intro entry hentry
    obtain ⟨hhanded, hwrote⟩ := hunder.wrote entry hentry
    rw [handed_concat]
    exact ⟨List.mem_append_left _ hhanded, hwrote.append _⟩
  · intro entry hentry
    -- the number is new, so it is not that of a record
    have hlt := (hunder.numbered.given _ (hunder.wrote entry hentry).1).2
    rw [chronicle_concat,
      Chronicle.fate_note_other (becomes_begin start turns) (UInt64.ne_of_lt hlt)]
    exact hunder.ended entry hentry

/-- A turn that neither begins nor ends a transaction leaves the log alone. -/
theorem silent (hunder : start.Underway turns added) (hbegin : turn.operation.isBegin = false)
    (hlogs : turn.operation.logs = false)
    (hwrote : (start.follow turns).Journals [] ((start.follow turns).turn turn).2) :
    start.Underway (turns ++ [turn]) added := by
  rw [← follow_concat] at hwrote
  have hfate : (start.chronicle (turns ++ [turn])).fate = (start.chronicle turns).fate := by
    rw [chronicle_concat]
    exact Chronicle.fate_note_of_silent hlogs hbegin
  obtain ⟨new, hlog, hmarks, -, hlast⟩ := hwrote.log _ _ hunder.log
  obtain rfl := List.map_eq_nil_iff.mp hmarks
  rw [List.append_nil] at hlog
  refine ⟨hunder.numbered.other hbegin hwrote.next (by rw [hfate]; exact fun _ h => h),
    hwrote.sized, hlog, hlast.trans hunder.last, hunder.linked, ?_, ?_⟩
  · intro entry hentry
    obtain ⟨hhanded, hentered⟩ := hunder.wrote entry hentry
    rw [handed_of_other hbegin]
    exact ⟨hhanded, hentered.append _⟩
  · rw [hfate]
    exact hunder.ended

/-- A transaction that runs has no chain. -/
theorem lookup_last (hunder : start.Underway turns added)
    (hnone : ∀ entry ∈ added, entry.transaction ≠ tid) :
    (start.follow turns).log.last.lookup tid = none := by
  rw [hunder.last]
  by_contra hsome
  obtain ⟨lsn, hlsn⟩ := Option.ne_none_iff_exists'.mp hsome
  obtain ⟨front, update, back, rfl, -, htid, -⟩ := Log.lookup_chains.mp hlsn
  exact hnone update (by simp) htid

/-- The records of a turn lie between the ends of the log before it and after it. -/
theorem wrote_new {new : List LogEntry} (hunder : start.Underway turns added)
    (hlog : (start.follow (turns ++ [turn])).log.Extends start.logContent.toBytes
      (start.follow (turns ++ [turn])).logContent (added ++ new))
    (hby : ∀ entry ∈ new, turn.operation.by? = some entry.transaction) :
    ∀ entry ∈ new, start.Wrote (turns ++ [turn]) entry := by
  intro entry hentry
  obtain ⟨-, hbehind⟩ := Log.stacked_append.mp hlog.stacked
  refine ⟨turns, turn, [], rfl, hby entry hentry, ?_, ?_⟩
  · rw [hunder.log.next]
    exact hbehind.le_lsn entry hentry
  · rw [hlog.next, Log.stopOf_append]
    exact hbehind.stop_le entry hentry

/-- A transaction that ends had no record, and then has some that are linked. -/
theorem ending (hunder : start.Underway turns added) (hbegin : turn.operation.isBegin = false)
    (hby : turn.operation.by? = some tid) {fate : Fate}
    (hbecomes : (start.chronicle turns).becomes turn.operation
      ((start.follow turns).turn turn).1 = some (tid, fate))
    (hfate : fate ≠ .running) (hrunning : (start.chronicle turns).fate tid = .running)
    {marks : List Mark} (hending : Ending tid marks)
    (hwrote : (start.follow turns).Journals marks ((start.follow turns).turn turn).2) :
    ∃ new, start.Underway (turns ++ [turn]) (added ++ new) := by
  rw [← follow_concat] at hwrote
  have hnone : ∀ entry ∈ added, entry.transaction ≠ tid := by
    rintro entry hentry rfl
    exact hunder.ended entry hentry hrunning
  obtain ⟨new, hlog, rfl, hchained, hlast⟩ := hwrote.log _ _ hunder.log
  have hown : ∀ entry ∈ new, entry.transaction = tid := fun entry hentry =>
    hending.own entry.mark (List.mem_map_of_mem hentry)
  have hlinked := hending.linked hchained
  rw [hunder.lookup_last hnone] at hlinked
  have hborn : ∀ other, (start.chronicle (turns ++ [turn])).fate other ≠ .unborn →
      (start.chronicle turns).fate other ≠ .unborn := by
    intro other
    by_cases hother : other = tid
    · rw [hother, hrunning]
      simp
    · rw [chronicle_concat, Chronicle.fate_note_other hbecomes hother]
      exact fun h => h
  refine ⟨new, hunder.numbered.other hbegin hwrote.next hborn, hwrote.sized, hlog, ?_, ?_, ?_, ?_⟩
  · rw [hlast, hunder.last, Log.chains_append]
  · apply linked_of_apart hunder.linked (linked_of_own hlinked hown)
    intro old hold entry hentry
    rw [hown entry hentry]
    exact hnone old hold
  · rw [handed_of_other hbegin]
    intro entry hentry
    rcases List.mem_append.mp hentry with hentry | hentry
    · obtain ⟨hhanded, hentered⟩ := hunder.wrote entry hentry
      exact ⟨hhanded, hentered.append _⟩
    · refine ⟨?_, hunder.wrote_new hlog (fun other hother => ?_) entry hentry⟩
      · rw [hown entry hentry]
        exact hunder.numbered.born tid (by rw [hrunning]; simp)
      · rw [hown other hother]
        exact hby
  · intro entry hentry
    rw [chronicle_concat]
    rcases List.mem_append.mp hentry with hentry | hentry
    · rw [Chronicle.fate_note_other hbecomes (hnone entry hentry)]
      exact hunder.ended entry hentry
    · rw [hown entry hentry, Chronicle.fate_note_self hbecomes]
      exact hfate

/-- Every turn of a session writes its records. -/
theorem step (hunder : start.Underway turns added) (htransactional : turn.operation.Transactional)
    (hfits : turn.Fits (start.follow turns))
    (hlawful : ∀ tid ∈ turn.operation.by?, (start.chronicle turns).fate tid = .running)
    (hids : ∀ tid ∈ start.handed (turns ++ [turn]), tid.toNat < UInt64.size - 1) :
    ∃ new, start.Underway (turns ++ [turn]) (added ++ new) := by
  cases hbegin : turn.operation.isBegin with
  | true =>
      obtain rfl : turn = .step .begin := by
        cases turn with
        | commit tid order => exact absurd hbegin (by simp [Turn.operation, Operation.isBegin])
        | step operation =>
            cases operation with
            | begin => rfl
            | _ => exact absurd hbegin (by simp [Turn.operation, Operation.isBegin])
      refine ⟨[], ?_⟩
      rw [List.append_nil]
      apply hunder.begin
      apply hids
      rw [handed_concat]
      exact List.mem_append_right _ (List.mem_singleton_self _)
  | false =>
      obtain ⟨marks, hwrote, ⟨hlogs, rfl⟩ | ⟨hlogs, tid, hby, hending⟩⟩ :=
        hunder.sized.turn htransactional hfits hbegin
      · refine ⟨[], ?_⟩
        rw [List.append_nil]
        exact hunder.silent hbegin hlogs hwrote
      · obtain ⟨fate, hbecomes, hfate⟩ := (start.chronicle turns).becomes_of_logs htransactional
          hlogs hby ((start.follow turns).turn turn).1
        exact hunder.ending hbegin hby hbecomes hfate (hlawful tid hby) hending hwrote

end Underway

/-- Every session writes its records. -/
theorem Opened.follow (hopened : Opened start)
    (hapart : start.catalog.Apart start.log.location) (turns : List Turn)
    (htransactional : ∀ turn ∈ turns, turn.operation.Transactional)
    (hfitting : start.Fitting turns) (hlawful : start.Lawful .empty turns)
    (hids : ∀ tid ∈ start.handed turns, tid.toNat < UInt64.size - 1) :
    ∃ added, start.Underway turns added := by
  induction turns using List.reverseRecOn with
  | nil => exact ⟨[], hopened.underway hapart⟩
  | append_singleton turns turn ih =>
      obtain ⟨hbefore, hfits⟩ := fitting_concat.mp hfitting
      obtain ⟨hlaw, hrunning⟩ := lawful_concat.mp hlawful
      have hfirst : ∀ tid ∈ start.handed turns, tid.toNat < UInt64.size - 1 := by
        intro tid htid
        apply hids
        rw [handed_concat]
        exact List.mem_append_left _ htid
      obtain ⟨added, hunder⟩ := ih
        (fun other hother => htransactional other (List.mem_append_left _ hother)) hbefore hlaw
        hfirst
      obtain ⟨new, hafter⟩ := hunder.step
        (htransactional turn (List.mem_append_right _ (List.mem_singleton_self _))) hfits hrunning
        hids
      exact ⟨added ++ new, hafter⟩

end Store

end HeapStore
