import HeapStore.Proofs.Guarded

/-!
# The search for room

An insert searches the pages of its table in order.  It locks each page and gives the lock up again
if the page is full and was not locked before, so that at most one lock is new when the search ends
(`LockTable.Gains`).  `sought_seek` says how the search ends: on the first page that has room, or
with all pages full, or refused.  `roomed_room` adds the page of zeros by which a full table grows.
-/

namespace HeapStore

/-! ## New locks -/

/-- A transaction got locks on some of these pages.  It keeps those that it had, and the locks of
others are as they were. -/
structure LockTable.Gains (table : LockTable) (tid : TransactionId) (may : PageAddress → Prop)
    (after : LockTable) : Prop where
  sound : after.Sound
  others : ∀ page who, who ≠ tid → after.mode? page who = table.mode? page who
  kept : ∀ page, table.mode? page tid = some .exclusive → after.mode? page tid = some .exclusive
  held : ∀ page, table.holds page tid = true → after.holds page tid = true
  gained : ∀ page, after.holds page tid = true → table.holds page tid = true ∨ may page

namespace LockTable.Gains

variable {table after last : LockTable} {tid : TransactionId} {may allowed : PageAddress → Prop}
  {page : PageAddress}

theorem refl (hsound : table.Sound) (may : PageAddress → Prop) : table.Gains tid may table :=
  ⟨hsound, fun _ _ _ => rfl, fun _ => id, fun _ => id, fun _ => Or.inl⟩

theorem mono (hgains : table.Gains tid may after) (hallowed : ∀ page, may page → allowed page) :
    table.Gains tid allowed after :=
  ⟨hgains.sound, hgains.others, hgains.kept, hgains.held,
    fun page hheld => (hgains.gained page hheld).imp_right (hallowed page)⟩

/-- No lock came first, and then some did. -/
theorem after_none (hfirst : table.Gains tid (fun _ => False) after)
    (hsecond : after.Gains tid may last) : table.Gains tid may last where
  sound := hsecond.sound
  others page who hother := (hsecond.others page who hother).trans (hfirst.others page who hother)
  kept page hmode := hsecond.kept page (hfirst.kept page hmode)
  held page hheld := hsecond.held page (hfirst.held page hheld)
  gained page hheld :=
    (hsecond.gained page hheld).imp_left fun hbefore =>
      (hfirst.gained page hbefore).elim id False.elim

theorem of_acquire {mode : LockMode} (hsound : table.Sound)
    (hacquire : table.acquire page tid mode = .ok after) : table.Gains tid (· = page) after := by
  have hgranted := granted_of_acquire hsound hacquire
  refine ⟨hgranted.sound, ?_, fun other => hgranted.kept other tid,
    fun other => hgranted.holds other tid, ?_⟩
  · intro other who hother
    exact hgranted.others other who fun hsame => hother hsame.2
  · intro other hheld
    by_cases hpage : other = page
    · exact Or.inr hpage
    · left
      rw [LockTable.holds, hgranted.others other tid fun hsame => hpage hsame.1] at hheld
      exact hheld

/-- Nobody else has had a page exclusively on which the transaction got an exclusive lock. -/
theorem alone (hgains : table.Gains tid may after)
    (hexclusive : after.mode? page tid = some .exclusive) (who : TransactionId)
    (hheld : table.mode? page who = some .exclusive) : who = tid := by
  by_cases hwho : who = tid
  · exact hwho
  · rw [← hgains.others page who hwho] at hheld
    exact LockTable.alone hexclusive (holds_of_mode? hheld)

/-- A lock that is given up again is not new. -/
theorem release (hgains : table.Gains tid (· = page) after)
    (hfree : table.holds page tid = false) :
    table.Gains tid (fun _ => False) (after.release page tid) := by
  have hmode := mode?_release hgains.sound page tid
  have hother : ∀ other, table.holds other tid = true → ¬ (other = page ∧ tid = tid) := by
    rintro other hheld ⟨rfl, -⟩
    rw [hfree] at hheld
    exact absurd hheld (by simp)
  refine ⟨sound_release hgains.sound page tid, ?_, ?_, ?_, ?_⟩
  · intro other who hwho
    rw [hmode, if_neg fun hsame => hwho hsame.2]
    exact hgains.others other who hwho
  · intro other hexclusive
    rw [hmode, if_neg (hother other (holds_of_mode? hexclusive))]
    exact hgains.kept other hexclusive
  · intro other hheld
    rw [holds, hmode, if_neg (hother other hheld)]
    exact hgains.held other hheld
  · intro other hheld
    rw [holds, hmode] at hheld
    split at hheld
    · exact absurd hheld (by simp)
    · rename_i hpage
      exact Or.inl ((hgains.gained other hheld).resolve_right fun hsame => hpage ⟨hsame, rfl⟩)

end LockTable.Gains

namespace PlainStore

variable {plain after : PlainStore} {tid : TransactionId} {table : Table} {address : PageAddress}
  {page : Page}

/-! ## Searching -/

/-- No other transaction has the page exclusively, and all its slots are in use. -/
def Full (plain : PlainStore) (tid : TransactionId) (address : PageAddress) : Prop :=
  (∃ page, plain.page address = .ok page ∧ page.freeSlots = 0) ∧
    ∀ who, plain.locks.mode? address who = some .exclusive → who = tid

/-- How the search for room ends among `count` pages from page `number` on. -/
inductive Sought (plain : PlainStore) (tid : TransactionId) (table : Table) (count number : Nat) :
    Outcome (Option Page) → Prop
  | found {offset : Nat} {page : Page} {locks : LockTable} (hoffset : offset < count)
      (hfull : ∀ earlier < offset, plain.Full tid ⟨table.id, .ofNat (number + earlier)⟩)
      (hpage : plain.page ⟨table.id, .ofNat (number + offset)⟩ = .ok page)
      (hroom : 0 < page.freeSlots)
      (hgains : plain.locks.Gains tid (· = ⟨table.id, .ofNat (number + offset)⟩) locks)
      (hexclusive : locks.mode? ⟨table.id, .ofNat (number + offset)⟩ tid = some .exclusive) :
      Sought plain tid table count number (.ok (some page), plain.withLocks locks)
  | full {locks : LockTable}
      (hfull : ∀ earlier < count, plain.Full tid ⟨table.id, .ofNat (number + earlier)⟩)
      (hgains : plain.locks.Gains tid (fun _ => False) locks) :
      Sought plain tid table count number (.ok none, plain.withLocks locks)
  | refused {error : StoreError} {address : PageAddress} {locks : LockTable}
      (hgains : plain.locks.Gains tid (· = address) locks) :
      Sought plain tid table count number (.error error, plain.withLocks locks)

/-- To get a page gains at most the lock on it, also if the page cannot be had. -/
theorem gains_getPage (hlocks : plain.locks.Sound) (tid : TransactionId) (address : PageAddress)
    (access : Access) :
    ∃ locks, (plain.getPage tid address access).2 = plain.withLocks locks ∧
      plain.locks.Gains tid (· = address) locks := by
  unfold getPage
  cases hacquire : plain.locks.acquire address tid access.lockMode with
  | error error => exact ⟨plain.locks, rfl, .refl hlocks _⟩
  | ok locks => exact ⟨locks, rfl, .of_acquire hlocks hacquire⟩

/-- A page that was full while only locks of the transaction were different is full. -/
theorem Full.of_gains {may : PageAddress → Prop} {locks : LockTable}
    (hfull : (plain.withLocks locks).Full tid address)
    (hgains : plain.locks.Gains tid may locks) : plain.Full tid address := by
  obtain ⟨hpage, halone⟩ := hfull
  refine ⟨hpage, fun who hexclusive => ?_⟩
  by_cases hwho : who = tid
  · exact hwho
  · apply halone
    show locks.mode? address who = _
    rw [hgains.others address who hwho]
    exact hexclusive

/-- A search that goes on behind a full page. -/
theorem Sought.later {count number : Nat} {locks : LockTable} {outcome : Outcome (Option Page)}
    (hfirst : plain.Full tid ⟨table.id, .ofNat number⟩)
    (hgains : plain.locks.Gains tid (fun _ => False) locks)
    (hsought : Sought (plain.withLocks locks) tid table count (number + 1) outcome) :
    Sought plain tid table (count + 1) number outcome := by
  have hnumber : ∀ offset, number + 1 + offset = number + (offset + 1) := by omega
  have hall : ∀ {count}, (∀ earlier < count,
      (plain.withLocks locks).Full tid ⟨table.id, .ofNat (number + 1 + earlier)⟩) →
        ∀ earlier < count + 1, plain.Full tid ⟨table.id, .ofNat (number + earlier)⟩ := by
    intro count hrest earlier hearlier
    cases earlier with
    | zero => exact hfirst
    | succ earlier =>
        have hlater := (hrest earlier (Nat.lt_of_succ_lt_succ hearlier)).of_gains hgains
        rwa [hnumber] at hlater
  cases hsought with
  | found hoffset hfull hpage hroom hmore hexclusive =>
      rw [hnumber] at hpage hmore hexclusive
      exact .found (Nat.succ_lt_succ hoffset) (hall hfull) hpage hroom (hgains.after_none hmore)
        hexclusive
  | full hfull hmore => exact .full (hall hfull) (hgains.after_none hmore)
  | refused hmore => exact .refused (hgains.after_none hmore)

theorem sought_seek (hlocks : plain.locks.Sound) (tid : TransactionId) (table : Table)
    (count number : Nat) :
    Sought plain tid table count number (seek tid table count number plain) := by
  induction count generalizing plain number with
  | zero =>
      have hnone : ∀ earlier < 0, plain.Full tid ⟨table.id, .ofNat (number + earlier)⟩ :=
        fun earlier hearlier => absurd hearlier (Nat.not_lt_zero earlier)
      exact .full hnone (.refl hlocks _)
  | succ count ih =>
      obtain ⟨locks, hafter, hgains⟩ :=
        gains_getPage hlocks tid ⟨table.id, .ofNat number⟩ .readWrite
      simp only [seek]
      cases hget : plain.getPage tid ⟨table.id, .ofNat number⟩ .readWrite with
      | mk result reached =>
          rw [hget] at hafter
          obtain rfl : reached = plain.withLocks locks := hafter
          cases result with
          | error error => exact .refused hgains
          | ok page =>
              obtain ⟨granted, hacquire, hsame, hpage⟩ := of_getPage hget
              obtain rfl : locks = granted := congrArg PlainStore.locks hsame
              have hgranted := LockTable.granted_of_acquire hlocks hacquire
              simp only
              split
              · rename_i hroom
                exact .found (Nat.succ_pos count)
                  (fun earlier hearlier => absurd hearlier (Nat.not_lt_zero earlier)) hpage hroom
                  hgains (hgranted.exclusive rfl)
              · rename_i hroom
                have hfull : plain.Full tid ⟨table.id, .ofNat number⟩ :=
                  ⟨⟨page, hpage, Nat.eq_zero_of_not_pos hroom⟩, hgranted.owner⟩
                -- the lock on a full page goes, unless it was there before the search came to it
                split
                · rename_i hheld
                  have hnone : plain.locks.Gains tid (fun _ => False) locks := by
                    refine ⟨hgains.sound, hgains.others, hgains.kept, hgains.held, ?_⟩
                    intro other hother
                    rcases hgains.gained other hother with hbefore | rfl
                    · exact Or.inl hbefore
                    · exact Or.inl hheld
                  exact .later hfull hnone (ih hgains.sound (number + 1))
                · rename_i hfree
                  have hnone := hgains.release (by simpa using hfree)
                  exact .later hfull hnone (ih hnone.sound (number + 1))

/-! ## Room in the table -/

/-- The store with other content in the file of a table. -/
def withContent (plain : PlainStore) (table : Table) (content : Content) : PlainStore :=
  { plain with disk := plain.disk.write table.location content }

/-- How the search for room in the whole table ends: on its first page that has room, refused, or
with all pages full and one of zeros behind them, which the transaction may not get. -/
inductive Roomed (plain : PlainStore) (tid : TransactionId) (table : Table) : Outcome Page → Prop
  | found {number : Nat} {page : Page} {locks : LockTable}
      (hnumber : number < (table.pageCount (plain.disk.content table.location)).toNat)
      (hfull : ∀ earlier < number, plain.Full tid ⟨table.id, .ofNat earlier⟩)
      (hpage : plain.page ⟨table.id, .ofNat number⟩ = .ok page) (hroom : 0 < page.freeSlots)
      (hgains : plain.locks.Gains tid (· = ⟨table.id, .ofNat number⟩) locks)
      (hexclusive : locks.mode? ⟨table.id, .ofNat number⟩ tid = some .exclusive) :
      Roomed plain tid table (.ok page, plain.withLocks locks)
  | refused {error : StoreError} {address : PageAddress} {locks : LockTable}
      (hgains : plain.locks.Gains tid (· = address) locks) :
      Roomed plain tid table (.error error, plain.withLocks locks)
  | grown {count : UInt32} {content : Content} {result : Except StoreError Page}
      {locks : LockTable} (hcount : count = table.pageCount (plain.disk.content table.location))
      (hfull : ∀ earlier < count.toNat, plain.Full tid ⟨table.id, .ofNat earlier⟩)
      (hwritten : table.Written (plain.disk.content table.location) count
        (Bytes.zeros table.pageSize) content)
      (hgains : plain.locks.Gains tid (· = ⟨table.id, count⟩) locks)
      (hgot : ∀ page, result = .ok page →
        (plain.withContent table content).page ⟨table.id, count⟩ = .ok page ∧
          locks.mode? ⟨table.id, count⟩ tid = some .exclusive) :
      Roomed plain tid table (result, (plain.withContent table content).withLocks locks)

theorem roomed_room (hlocks : plain.locks.Sound) (tid : TransactionId) (table : Table) :
    Roomed plain tid table (plain.room tid table) := by
  have hsought := sought_seek hlocks tid table
    (table.pageCount (plain.disk.content table.location)).toNat 0
  simp only [room]
  revert hsought
  generalize seek tid table (table.pageCount (plain.disk.content table.location)).toNat 0 plain
    = outcome
  intro hsought
  cases hsought with
  | found hoffset hfull hpage hroom hgains hexclusive =>
      simp only [Nat.zero_add] at hfull hpage hgains hexclusive
      exact .found hoffset hfull hpage hroom hgains hexclusive
  | refused hgains => exact .refused hgains
  | @full locks hfull hgains =>
      simp only [Nat.zero_add] at hfull
      simp only [grow]
      cases happend : table.appendPage (plain.withLocks locks).armed
          ((plain.withLocks locks).disk.content table.location) with
      | error error =>
          have hnone : plain.locks.Gains tid (· = ⟨table.id, 0⟩) locks :=
            hgains.mono fun _ hnever => hnever.elim
          exact .refused hnone
      | ok grown =>
          obtain ⟨address, content⟩ := grown
          obtain ⟨rfl, hwritten⟩ := Table.appended_of_appendPage happend
          generalize hcount : table.pageCount ((plain.withLocks locks).disk.content table.location)
            = count at hwritten
          -- the new page is got like any other, and this may fail
          have hgrown : ((plain.withContent table content).withLocks locks).locks.Sound :=
            hgains.sound
          obtain ⟨granted, hafter, hmore⟩ :=
            gains_getPage hgrown tid ⟨table.id, count⟩ .readWrite
          show Roomed plain tid table
            (((plain.withContent table content).withLocks locks).getPage tid ⟨table.id, count⟩
              .readWrite)
          cases hget : ((plain.withContent table content).withLocks locks).getPage tid
              ⟨table.id, count⟩ .readWrite with
          | mk result reached =>
              rw [hget] at hafter
              obtain rfl : reached = (plain.withContent table content).withLocks granted := hafter
              refine .grown hcount.symm (hcount ▸ hfull) hwritten (hgains.after_none hmore) ?_
              rintro page rfl
              obtain ⟨locked, hacquire, hsame, hpage⟩ := of_getPage hget
              obtain rfl : granted = locked := congrArg PlainStore.locks hsame
              exact ⟨hpage, (LockTable.granted_of_acquire hgains.sound hacquire).exclusive rfl⟩

end PlainStore

end HeapStore
