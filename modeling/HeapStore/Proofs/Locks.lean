import HeapStore.Lock
import HeapStore.Proofs.Lookup

/-!
# Who holds which page

A lock table is looked at through `LockTable.mode?`, the mode in which a transaction holds a page.
A request that is granted changes the mode of that transaction on that page only, and never to a
weaker one (`mode?_of_acquire`); to give up locks takes them from one transaction only
(`mode?_release`, `mode?_releaseAll`).  An exclusive lock has no holder but one (`alone`).

In a sound table no page has two entries.
-/

namespace HeapStore

/-- The mode of a lock that was held in one mode, if at all, and is then granted in another. -/
def LockMode.raised : (held : Option LockMode) → (mode : LockMode) → LockMode
  | some .exclusive, _ => .exclusive
  | _, mode => mode

@[simp] theorem LockMode.raised_exclusive (held : Option LockMode) :
    raised held .exclusive = .exclusive := by
  rcases held with _ | mode
  · rfl
  · cases mode <;> rfl

namespace PageLock

variable {lock granted : PageLock} {tid other : TransactionId} {mode : LockMode}

theorem alone (hexclusive : lock.mode? tid = some .exclusive)
    (hother : (lock.mode? other).isSome = true) : other = tid := by
  cases lock with
  | shared holders => simp [mode?] at hexclusive
  | exclusive holder =>
      simp only [mode?, Option.ite_none_right_eq_some, and_true] at hexclusive
      simp only [mode?] at hother
      split at hother
      · rename_i hholder
        rw [← hholder, hexclusive]
      · simp at hother

theorem mode?_single (tid other : TransactionId) (mode : LockMode) :
    (single tid mode).mode? other = if other = tid then some mode else none := by
  cases mode with
  | shared => simp [single, mode?]
  | exclusive => simp [single, mode?, eq_comm]

/-- A granted request changes the mode of its transaction only. -/
theorem mode?_of_request? (hrequest : lock.request? tid mode = some granted)
    (other : TransactionId) :
    granted.mode? other =
      if other = tid then some (.raised (lock.mode? tid) mode) else lock.mode? other := by
  cases lock with
  | exclusive holder =>
      simp only [request?, Option.ite_none_right_eq_some, Option.some.injEq] at hrequest
      obtain ⟨rfl, rfl⟩ := hrequest
      by_cases hother : other = holder
      · simp [mode?, hother, LockMode.raised]
      · simp [hother]
  -- A shared lock is shared once more, or raised by its only holder.
  | shared holders =>
      cases mode with
      | shared =>
          have hraised : LockMode.raised ((shared holders).mode? tid) .shared = .shared := by
            simp only [mode?]
            split <;> rfl
          rw [hraised]
          simp only [request?] at hrequest
          split at hrequest
          · rename_i hheld
            obtain rfl := Option.some.inj hrequest
            by_cases hother : other = tid
            · simp [mode?, hother, hheld]
            · simp [hother]
          · obtain rfl := Option.some.inj hrequest
            by_cases hother : other = tid
            · simp [mode?, hother]
            · simp [mode?, hother]
      | exclusive =>
          simp only [request?, Option.ite_none_right_eq_some, Option.some.injEq] at hrequest
          obtain ⟨rfl, rfl⟩ := hrequest
          rw [LockMode.raised_exclusive]
          by_cases hother : other = tid
          · simp [mode?, hother]
          · simp [mode?, hother, Ne.symm hother]

/-- A lock that is given up is taken from its transaction only. -/
theorem mode?_without? (lock : PageLock) (tid other : TransactionId) :
    (lock.without? tid).bind (·.mode? other) = if other = tid then none else lock.mode? other := by
  cases lock with
  | exclusive holder =>
      simp only [without?]
      by_cases hholder : holder = tid
      · subst hholder
        simp [mode?, eq_comm]
      · rw [if_neg hholder]
        by_cases hother : other = tid
        · simp [mode?, hother, hholder]
        · simp [hother]
  | shared holders =>
      -- The entry goes when the last holder goes; then nobody else was a holder.
      have hmem : other ∈ holders.filter (· ≠ tid) ↔ other ∈ holders ∧ other ≠ tid := by simp
      simp only [without?, mode?]
      cases hrest : holders.filter (· ≠ tid) with
      | nil =>
          rw [hrest] at hmem
          by_cases hother : other = tid
          · simp [hother]
          · have hout : other ∉ holders := fun hin => by simpa using hmem.mpr ⟨hin, hother⟩
            simp [hout]
      | cons first rest =>
          rw [hrest] at hmem
          simp only [Option.bind_some, hmem]
          by_cases hother : other = tid
          · simp [hother]
          · simp [hother]

end PageLock

namespace LockTable

variable {table after : LockTable} {page : PageAddress} {tid : TransactionId} {mode : LockMode}

/-- No page has two entries. -/
def Sound (table : LockTable) : Prop :=
  (table.entries.map (·.1)).Nodup

theorem alone {other : TransactionId} (hexclusive : table.mode? page tid = some .exclusive)
    (hother : table.holds page other = true) : other = tid := by
  simp only [holds, mode?] at hexclusive hother
  cases hlock : table.lock? page with
  | none => simp [hlock] at hexclusive
  | some lock =>
      simp only [hlock, Option.bind_some] at hexclusive hother
      exact PageLock.alone hexclusive hother

theorem holds_of_mode? (hmode : table.mode? page tid = some mode) :
    table.holds page tid = true := by
  simp [holds, hmode]

/-! ## Requests -/

/-- The lock that a page has once a request for it is granted; none if it is refused. -/
def granted? (table : LockTable) (page : PageAddress) (tid : TransactionId) (mode : LockMode) :
    Option PageLock :=
  match table.lock? page with
  | none => some (.single tid mode)
  | some lock => lock.request? tid mode

theorem isSome_acquire? (table : LockTable) (page : PageAddress) (tid : TransactionId)
    (mode : LockMode) :
    (table.acquire? page tid mode).isSome = (table.granted? page tid mode).isSome := by
  simp only [acquire?, granted?]
  cases table.lock? page with
  | none => rfl
  | some lock => simp

theorem lock?_of_acquire? (hacquire : table.acquire? page tid mode = some after) :
    ∃ granted, table.granted? page tid mode = some granted ∧
      ∀ other, after.lock? other = if other = page then some granted else table.lock? other := by
  simp only [acquire?] at hacquire
  simp only [granted?]
  cases hlock : table.lock? page with
  | none =>
      simp only [hlock, Option.some.injEq] at hacquire
      subst hacquire
      exact ⟨_, rfl, lookup_append_of_none hlock⟩
  | some lock =>
      simp only [hlock, Option.map_eq_some_iff] at hacquire
      obtain ⟨granted, hrequest, rfl⟩ := hacquire
      refine ⟨granted, hrequest, fun other => ?_⟩
      have hsome : table.entries.lookup page = some lock := hlock
      simp only [lock?, lookup_map_replace, hsome, Option.map_some]

theorem acquire?_of_acquire (hacquire : table.acquire page tid mode = .ok after) :
    table.acquire? page tid mode = some after := by
  simp only [acquire] at hacquire
  split at hacquire
  · rename_i hgranted
    rw [hgranted, Except.ok.inj hacquire]
  · simp at hacquire

/-- A granted request changes the mode of its transaction on its page only. -/
theorem mode?_of_acquire? (hacquire : table.acquire? page tid mode = some after)
    (other : PageAddress) (who : TransactionId) :
    after.mode? other who =
      if other = page ∧ who = tid then some (.raised (table.mode? page tid) mode)
      else table.mode? other who := by
  obtain ⟨granted, hgranted, hafter⟩ := lock?_of_acquire? hacquire
  simp only [mode?, hafter]
  by_cases hother : other = page
  · subst hother
    have hmode : granted.mode? who =
        if who = tid then some (.raised ((table.lock? other).bind (·.mode? tid)) mode)
        else (table.lock? other).bind (·.mode? who) := by
      simp only [granted?] at hgranted
      cases hlock : table.lock? other with
      | none =>
          rw [hlock] at hgranted
          rw [← Option.some.inj hgranted, PageLock.mode?_single]
          rfl
      | some lock =>
          rw [hlock] at hgranted
          exact PageLock.mode?_of_request? hgranted who
    simpa using hmode
  · simp [hother]

theorem mode?_of_acquire (hacquire : table.acquire page tid mode = .ok after)
    (other : PageAddress) (who : TransactionId) :
    after.mode? other who =
      if other = page ∧ who = tid then some (.raised (table.mode? page tid) mode)
      else table.mode? other who :=
  mode?_of_acquire? (acquire?_of_acquire hacquire) other who

theorem sound_acquire? (hsound : table.Sound)
    (hacquire : table.acquire? page tid mode = some after) : after.Sound := by
  simp only [acquire?] at hacquire
  cases hlock : table.lock? page with
  | none =>
      simp only [hlock, Option.some.injEq] at hacquire
      subst hacquire
      -- A new entry is made only where there is none.
      have hout : page ∉ table.entries.map (·.1) := by
        intro hmem
        obtain ⟨entry, hentry, hpage⟩ := List.mem_map.mp hmem
        have hmissing := List.lookup_eq_none_iff.mp hlock entry hentry
        simp [hpage] at hmissing
      simp only [Sound, List.map_append, List.map_cons, List.map_nil]
      exact List.nodup_append.mpr ⟨hsound, List.nodup_singleton page, by
        intro entry hentry other hother heq
        rw [List.mem_singleton.mp hother] at heq
        exact hout (heq ▸ hentry)⟩
  | some lock =>
      simp only [hlock, Option.map_eq_some_iff] at hacquire
      obtain ⟨granted, -, rfl⟩ := hacquire
      -- The lock changes in its entry, and the pages of the entries stay.
      have hkeys : (table.entries.map fun entry =>
          if entry.1 = page then (page, granted) else entry).map (·.1)
            = table.entries.map (·.1) := by
        rw [List.map_map]
        apply List.map_congr_left
        intro entry _
        by_cases hpage : entry.1 = page
        · simp [hpage]
        · simp [hpage]
      simp only [Sound, hkeys]
      exact hsound

theorem sound_acquire (hsound : table.Sound) (hacquire : table.acquire page tid mode = .ok after) :
    after.Sound :=
  sound_acquire? hsound (acquire?_of_acquire hacquire)

/-- What a granted request says about the locks before and after it. -/
structure Granted (table : LockTable) (page : PageAddress) (tid : TransactionId) (mode : LockMode)
    (after : LockTable) : Prop where
  sound : after.Sound
  held : after.holds page tid = true
  exclusive : mode = .exclusive → after.mode? page tid = some .exclusive
  others : ∀ other who, ¬ (other = page ∧ who = tid) → after.mode? other who = table.mode? other who
  kept : ∀ other who, table.mode? other who = some .exclusive →
    after.mode? other who = some .exclusive
  holds : ∀ other who, table.holds other who = true → after.holds other who = true
  owner : ∀ who, table.mode? page who = some .exclusive → who = tid

theorem granted_of_acquire (hsound : table.Sound)
    (hacquire : table.acquire page tid mode = .ok after) : table.Granted page tid mode after := by
  have hmode := mode?_of_acquire hacquire
  have hown : after.mode? page tid = some (.raised (table.mode? page tid) mode) := by
    rw [hmode, if_pos ⟨rfl, rfl⟩]
  have hothers : ∀ other who, ¬ (other = page ∧ who = tid) →
      after.mode? other who = table.mode? other who := by
    intro other who hne
    rw [hmode, if_neg hne]
  have hkept : ∀ other who, table.mode? other who = some .exclusive →
      after.mode? other who = some .exclusive := by
    intro other who hexclusive
    by_cases hsame : other = page ∧ who = tid
    · obtain ⟨rfl, rfl⟩ := hsame
      rw [hown, hexclusive]
      rfl
    · rw [hothers other who hsame, hexclusive]
  refine ⟨sound_acquire hsound hacquire, holds_of_mode? hown, ?_, hothers, hkept, ?_, ?_⟩
  · intro hexclusive
    rw [hown, hexclusive, LockMode.raised_exclusive]
  · intro other who hheld
    by_cases hsame : other = page ∧ who = tid
    · obtain ⟨rfl, rfl⟩ := hsame
      exact holds_of_mode? hown
    · simp only [LockTable.holds, hothers other who hsame]
      exact hheld
  -- An exclusive lock is still there after the request, next to the one that was granted.
  · intro who hexclusive
    exact (alone (hkept page who hexclusive) (holds_of_mode? hown)).symm

/-! ## Giving up locks -/

/-- The table with every lock changed or taken out. -/
def changed (table : LockTable) (change : PageAddress → PageLock → Option PageLock) : LockTable :=
  ⟨table.entries.filterMap fun entry => (change entry.1 entry.2).map (entry.1, ·)⟩

theorem sound_changed (hsound : table.Sound)
    (change : PageAddress → PageLock → Option PageLock) : (table.changed change).Sound :=
  nodup_keys_filterMap hsound

theorem lock?_changed (hsound : table.Sound)
    (change : PageAddress → PageLock → Option PageLock) (page : PageAddress) :
    (table.changed change).lock? page = (table.lock? page).bind (change page) :=
  lookup_filterMap change table.entries hsound page

theorem mode?_changed (hsound : table.Sound)
    (change : PageAddress → PageLock → Option PageLock) (page : PageAddress)
    (tid : TransactionId) :
    (table.changed change).mode? page tid =
      ((table.lock? page).bind (change page)).bind (·.mode? tid) := by
  rw [mode?, lock?_changed hsound]

theorem release_eq (table : LockTable) (page : PageAddress) (tid : TransactionId) :
    table.release page tid =
      table.changed fun other lock => if other = page then lock.without? tid else some lock := by
  simp only [release, changed]
  congr 2
  funext entry
  by_cases hpage : entry.1 = page
  · simp [hpage]
  · simp [hpage]

theorem sound_release (hsound : table.Sound) (page : PageAddress) (tid : TransactionId) :
    (table.release page tid).Sound := by
  rw [release_eq]
  exact sound_changed hsound _

theorem mode?_release (hsound : table.Sound) (page : PageAddress) (tid : TransactionId)
    (other : PageAddress) (who : TransactionId) :
    (table.release page tid).mode? other who =
      if other = page ∧ who = tid then none else table.mode? other who := by
  rw [release_eq, mode?_changed hsound, mode?]
  cases table.lock? other with
  | none => simp
  | some lock =>
      by_cases hother : other = page
      · simp [hother, PageLock.mode?_without?]
      · simp [hother]

theorem sound_releaseAll (hsound : table.Sound) (tid : TransactionId) :
    (table.releaseAll tid).Sound :=
  sound_changed hsound fun _ lock => lock.without? tid

theorem mode?_releaseAll (hsound : table.Sound) (tid : TransactionId) (other : PageAddress)
    (who : TransactionId) :
    (table.releaseAll tid).mode? other who = if who = tid then none else table.mode? other who := by
  have hchanged := mode?_changed hsound (fun _ lock => lock.without? tid) other who
  have hall : table.releaseAll tid = table.changed fun _ lock => lock.without? tid := rfl
  rw [hall, hchanged, mode?]
  cases table.lock? other with
  | none => simp
  | some lock => simp [PageLock.mode?_without?]

end LockTable

end HeapStore
