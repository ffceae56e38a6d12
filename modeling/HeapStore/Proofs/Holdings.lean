import HeapStore.Proofs.Locks

/-!
# The locks that are held

Seen from outside, a lock table is a set of held locks: who holds which page in which mode.  The
rules of locking speak of this set alone.  A shared lock is free as long as nobody else holds the
page exclusively, an exclusive lock as long as nobody else holds it at all; a lock that is not free
is refused, and a refusal changes nothing.  Whoever is granted a lock on a page that it holds
already keeps its place and the stronger mode, a new holder comes last.

`LockTable.refines_held` says that the table follows these rules: after any requests it represents
the set that the rules give, and it answers the next request as they say.
-/

namespace HeapStore

/-! ## The rules -/

/-- What is asked of a lock table. -/
inductive LockRequest where
  | acquire (page : PageAddress) (tid : TransactionId) (mode : LockMode)
  | release (page : PageAddress) (tid : TransactionId)
  | releaseAll (tid : TransactionId)

/-- The transaction that asks. -/
def LockRequest.tid : LockRequest → TransactionId
  | .acquire _ tid _ => tid
  | .release _ tid => tid
  | .releaseAll tid => tid

/-- What a lock table answers. -/
inductive LockAnswer where
  | granted (yes : Bool)
  | released (held : Bool)
  | pages (pages : List PageAddress)

/-- The holders of one page with their modes, in the order in which they were first granted it. -/
abbrev Holders := List (TransactionId × LockMode)

namespace Holders

/-- No other holder stands against a lock for `tid`. -/
def Free (holders : Holders) (tid : TransactionId) : LockMode → Prop
  | .shared => ∀ entry ∈ holders, entry.1 = tid ∨ entry.2 = .shared
  | .exclusive => ∀ entry ∈ holders, entry.1 = tid

instance (holders : Holders) (tid : TransactionId) (mode : LockMode) :
    Decidable (holders.Free tid mode) :=
  match mode with
  | .shared => inferInstanceAs (Decidable (∀ entry ∈ holders, _))
  | .exclusive => inferInstanceAs (Decidable (∀ entry ∈ holders, _))

/-- `tid` is granted a lock. -/
def grant (holders : Holders) (tid : TransactionId) (mode : LockMode) : Holders :=
  if ∃ entry ∈ holders, entry.1 = tid then
    holders.map fun entry => if entry.1 = tid then (tid, .raised (some entry.2) mode) else entry
  else holders ++ [(tid, mode)]

/-- `tid` gives up its lock. -/
def drop (holders : Holders) (tid : TransactionId) : Holders :=
  holders.filter (·.1 ≠ tid)

end Holders

/-- The locks that are held: of each page, its holders. -/
abbrev Held := PageAddress → Holders

namespace Held

/-- Nothing is held. -/
def nothing : Held := fun _ => []

/-- The locks that are held after a request. -/
def after (held : Held) : LockRequest → Held
  | .acquire page tid mode =>
    if (held page).Free tid mode then Function.update held page ((held page).grant tid mode)
    else held
  | .release page tid => Function.update held page ((held page).drop tid)
  | .releaseAll tid => fun page => (held page).drop tid

/-- The locks that are held after some requests. -/
def afterAll (held : Held) (requests : List LockRequest) : Held :=
  requests.foldl after held

/-- The answer that a request has to get. -/
def Answers (held : Held) : LockRequest → LockAnswer → Prop
  | .acquire page tid mode, .granted yes => yes = true ↔ (held page).Free tid mode
  | .release page tid, .released yes => yes = true ↔ ∃ mode, (tid, mode) ∈ held page
  | .releaseAll tid, .pages pages =>
    pages.Nodup ∧ ∀ page, page ∈ pages ↔ ∃ mode, (tid, mode) ∈ held page
  | _, _ => False

end Held

namespace PageLock

variable {lock granted : PageLock} {tid : TransactionId} {mode : LockMode}

/-- Somebody holds the lock, and nobody twice. -/
def Proper : PageLock → Prop
  | .shared tids => tids ≠ [] ∧ tids.Nodup
  | .exclusive _ => True

theorem holders_single (tid : TransactionId) (mode : LockMode) :
    (single tid mode).holders = [(tid, mode)] := by
  cases mode <;> rfl

theorem proper_single (tid : TransactionId) (mode : LockMode) : (single tid mode).Proper := by
  cases mode with
  | shared => simp [single, Proper]
  | exclusive => trivial

theorem mode?_eq_some_iff : lock.mode? tid = some mode ↔ (tid, mode) ∈ lock.holders := by
  cases lock with
  | shared tids => cases mode <;> simp [mode?, holders]
  | exclusive holder => cases mode <;> simp [mode?, holders, eq_comm]

theorem holders_ne_nil (hproper : lock.Proper) : lock.holders ≠ [] := by
  cases lock with
  | shared tids => simpa [holders] using hproper.1
  | exclusive holder => simp [holders]

theorem nodup_holders (hproper : lock.Proper) : (lock.holders.map (·.1)).Nodup := by
  cases lock with
  | shared tids => simpa [holders, Function.comp_def] using hproper.2
  | exclusive holder => simp [holders]

/-- An exclusive lock has one holder. -/
theorem holders_of_exclusive (hexclusive : (tid, .exclusive) ∈ lock.holders) :
    lock.holders = [(tid, .exclusive)] := by
  cases lock with
  | shared tids => simp [holders] at hexclusive
  | exclusive holder =>
      have hholder : tid = holder := by simpa [holders] using hexclusive
      simp [holders, hholder]

theorem isSome_request?_iff (hproper : lock.Proper) (tid : TransactionId) (mode : LockMode) :
    (lock.request? tid mode).isSome = true ↔ Holders.Free lock.holders tid mode := by
  cases lock with
  | exclusive holder => cases mode <;> simp [request?, holders, Holders.Free]
  | shared tids =>
      cases mode with
      | shared =>
          simp only [request?, PageLock.holders, Holders.Free]
          split <;> simp
      | exclusive =>
          obtain ⟨hsome, hnodup⟩ := hproper
          have honly : tids = [tid] ↔ ∀ who ∈ tids, who = tid := by
            cases tids with
            | nil => exact absurd rfl hsome
            | cons first rest =>
                constructor
                · intro hall who hwho
                  simpa [hall] using hwho
                · intro hall
                  have hfirst := hall first (by simp)
                  have hrest : rest = [] := by
                    refine List.eq_nil_iff_forall_not_mem.mpr fun who hwho => ?_
                    have hagain : who = first := by rw [hall who (by simp [hwho]), hfirst]
                    exact (List.nodup_cons.mp hnodup).1 (hagain ▸ hwho)
                  rw [hfirst, hrest]
          simp [request?, PageLock.holders, Holders.Free, honly]

theorem holders_of_request? (hrequest : lock.request? tid mode = some granted) :
    granted.holders = Holders.grant lock.holders tid mode := by
  cases lock with
  | exclusive holder =>
      simp only [request?, Option.ite_none_right_eq_some, Option.some.injEq] at hrequest
      obtain ⟨rfl, rfl⟩ := hrequest
      simp [holders, Holders.grant, LockMode.raised]
  | shared tids =>
      cases mode with
      | shared =>
          simp only [request?] at hrequest
          split at hrequest
          · rename_i hheld
            obtain rfl := Option.some.inj hrequest
            have hsame : tids.map (fun who => if who = tid then (tid, LockMode.shared) else
                (who, .shared)) = tids.map (·, .shared) :=
              List.map_congr_left fun who _ => by split <;> simp [*]
            simp [holders, Holders.grant, hheld, Function.comp_def, LockMode.raised, hsame]
          · rename_i hheld
            obtain rfl := Option.some.inj hrequest
            simp [holders, Holders.grant, hheld]
      | exclusive =>
          simp only [request?, Option.ite_none_right_eq_some, Option.some.injEq] at hrequest
          obtain ⟨rfl, rfl⟩ := hrequest
          simp [holders, Holders.grant]

theorem proper_of_request? (hproper : lock.Proper)
    (hrequest : lock.request? tid mode = some granted) : granted.Proper := by
  cases lock with
  | exclusive holder =>
      simp only [request?, Option.ite_none_right_eq_some, Option.some.injEq] at hrequest
      obtain ⟨rfl, rfl⟩ := hrequest
      trivial
  | shared tids =>
      cases mode with
      | shared =>
          simp only [request?] at hrequest
          split at hrequest
          · obtain rfl := Option.some.inj hrequest
            exact hproper
          · rename_i hnew
            obtain rfl := Option.some.inj hrequest
            exact ⟨by simp, List.nodup_append.mpr ⟨hproper.2, by simp, by grind⟩⟩
      | exclusive =>
          simp only [request?, Option.ite_none_right_eq_some, Option.some.injEq] at hrequest
          obtain ⟨rfl, rfl⟩ := hrequest
          trivial

/-- A lock that nobody holds any more is gone. -/
theorem holders_without? (lock : PageLock) (tid : TransactionId) :
    (lock.without? tid).elim [] holders = Holders.drop lock.holders tid := by
  cases lock with
  | exclusive holder =>
      simp only [without?, Holders.drop, holders]
      by_cases hholder : holder = tid
      · simp [hholder]
      · simp [hholder, holders]
  | shared tids =>
      have hrest : Holders.drop (shared tids).holders tid
          = (tids.filter (· ≠ tid)).map (·, .shared) := by
        simp [Holders.drop, holders, List.filter_map, Function.comp_def]
      rw [hrest]
      simp only [without?]
      split
      · rename_i hnone
        rw [hnone]
        rfl
      · simp [holders]

theorem proper_without? (hproper : lock.Proper) (hleft : lock.without? tid = some granted) :
    granted.Proper := by
  cases lock with
  | exclusive holder =>
      simp only [without?, Option.ite_none_left_eq_some, Option.some.injEq] at hleft
      obtain ⟨-, rfl⟩ := hleft
      trivial
  | shared tids =>
      simp only [without?] at hleft
      split at hleft
      · simp at hleft
      · rename_i hsome
        obtain rfl := Option.some.inj hleft
        exact ⟨hsome, hproper.2.filter _⟩

end PageLock

namespace LockTable

variable {table after : LockTable} {page : PageAddress} {tid : TransactionId} {mode : LockMode}

/-! ## What the table holds -/

theorem holders_eq (table : LockTable) (page : PageAddress) :
    table.holders page = (table.lock? page).elim [] PageLock.holders := by
  simp only [holders]
  cases table.lock? page <;> rfl

/-- Every entry is of another page, and somebody holds it. -/
structure Tidy (table : LockTable) : Prop where
  sound : table.Sound
  proper : ∀ page lock, table.lock? page = some lock → lock.Proper

/-- The table has an entry for every page that is held, and no other. -/
structure Represents (table : LockTable) (held : Held) : Prop where
  holders : ∀ page, table.holders page = held page
  modes : ∀ page tid mode, table.mode? page tid = some mode ↔ (tid, mode) ∈ held page
  entries : (table.entries.map (·.1)).Nodup
  locked : ∀ page, page ∈ table.entries.map (·.1) ↔ held page ≠ []
  once : ∀ page, ((held page).map (·.1)).Nodup
  alone : ∀ page tid, (tid, .exclusive) ∈ held page → held page = [(tid, .exclusive)]

theorem mode?_eq_some_iff :
    table.mode? page tid = some mode ↔ (tid, mode) ∈ table.holders page := by
  rw [mode?, holders_eq]
  cases table.lock? page with
  | none => simp
  | some lock => exact PageLock.mode?_eq_some_iff

theorem mem_entries_iff (table : LockTable) (page : PageAddress) :
    page ∈ table.entries.map (·.1) ↔ (table.lock? page).isSome = true := by
  rw [← Option.ne_none_iff_isSome, lock?, Ne, List.lookup_eq_none_iff, List.mem_map]
  simp

theorem Tidy.represents (htidy : table.Tidy) : table.Represents table.holders where
  holders _ := rfl
  modes _ _ _ := mode?_eq_some_iff
  entries := htidy.sound
  locked page := by
    rw [mem_entries_iff, holders_eq]
    cases hlock : table.lock? page with
    | none => simp
    | some lock => simpa using PageLock.holders_ne_nil (htidy.proper page lock hlock)
  once page := by
    rw [holders_eq]
    cases hlock : table.lock? page with
    | none => simp
    | some lock => exact PageLock.nodup_holders (htidy.proper page lock hlock)
  alone page tid hexclusive := by
    rw [holders_eq] at hexclusive ⊢
    cases hlock : table.lock? page with
    | none => simp [hlock] at hexclusive
    | some lock =>
        rw [hlock] at hexclusive
        exact PageLock.holders_of_exclusive hexclusive

/-! ## What a request changes -/

/-- The answer of the table to a request, and the table after it. -/
def serve (table : LockTable) : LockRequest → LockAnswer × LockTable
  | .acquire page tid mode =>
    match table.acquire? page tid mode with
    | some after => (.granted true, after)
    | none => (.granted false, table)
  | .release page tid => (.released (table.holds page tid), table.release page tid)
  | .releaseAll tid => (.pages (table.pagesOf tid), table.releaseAll tid)

theorem Tidy.isSome_acquire?_iff (htidy : table.Tidy) (page : PageAddress) (tid : TransactionId)
    (mode : LockMode) :
    (table.acquire? page tid mode).isSome = true ↔ Holders.Free (table.holders page) tid mode := by
  rw [isSome_acquire?, granted?, holders_eq]
  cases hlock : table.lock? page with
  | none => cases mode <;> simp [Holders.Free]
  | some lock => exact PageLock.isSome_request?_iff (htidy.proper page lock hlock) tid mode

theorem holders_of_acquire? (hacquire : table.acquire? page tid mode = some after) :
    after.holders = Function.update table.holders page
      (Holders.grant (table.holders page) tid mode) := by
  obtain ⟨granted, hgranted, hafter⟩ := lock?_of_acquire? hacquire
  funext other
  rw [holders_eq, hafter]
  by_cases hother : other = page
  · subst hother
    rw [if_pos rfl, Function.update_self, holders_eq, Option.elim_some]
    simp only [granted?] at hgranted
    cases hlock : table.lock? other with
    | none =>
        rw [hlock] at hgranted
        rw [← Option.some.inj hgranted, PageLock.holders_single]
        simp [Holders.grant]
    | some lock =>
        rw [hlock] at hgranted
        exact PageLock.holders_of_request? hgranted
  · rw [if_neg hother, Function.update_of_ne hother, holders_eq]

theorem Tidy.acquire? (htidy : table.Tidy) (hacquire : table.acquire? page tid mode = some after) :
    after.Tidy := by
  refine ⟨sound_acquire? htidy.sound hacquire, ?_⟩
  obtain ⟨granted, hgranted, hafter⟩ := lock?_of_acquire? hacquire
  intro other lock hlock
  rw [hafter] at hlock
  split at hlock
  · obtain rfl := Option.some.inj hlock
    simp only [granted?] at hgranted
    split at hgranted
    · rw [← Option.some.inj hgranted]
      exact PageLock.proper_single tid mode
    · rename_i former hformer
      exact PageLock.proper_of_request? (htidy.proper page former hformer) hgranted
  · exact htidy.proper other lock hlock

/-- After `tid` gave up the locks on some pages. -/
theorem Tidy.changed (htidy : table.Tidy) (tid : TransactionId) (gone : PageAddress → Prop)
    [DecidablePred gone] (hafter : after =
      table.changed fun page lock => if gone page then lock.without? tid else some lock) :
    after.Tidy ∧ ∀ page, after.holders page =
      if gone page then Holders.drop (table.holders page) tid else table.holders page := by
  have hlock : ∀ page, after.lock? page = (table.lock? page).bind fun lock =>
      if gone page then lock.without? tid else some lock := by
    intro page
    rw [hafter, lock?_changed htidy.sound]
  refine ⟨⟨?_, ?_⟩, ?_⟩
  · rw [hafter]
    exact sound_changed htidy.sound _
  · intro page left hleft
    rw [hlock, Option.bind_eq_some_iff] at hleft
    obtain ⟨lock, hsome, hleft⟩ := hleft
    split at hleft
    · exact PageLock.proper_without? (htidy.proper page lock hsome) hleft
    · rw [← Option.some.inj hleft]
      exact htidy.proper page lock hsome
  · intro page
    rw [holders_eq, holders_eq, hlock]
    cases table.lock? page with
    | none => simp [Holders.drop]
    | some lock =>
        rw [Option.bind_some]
        split
        · exact PageLock.holders_without? lock tid
        · rfl

theorem mem_pagesOf_iff (hsound : table.Sound) :
    page ∈ table.pagesOf tid ↔ ∃ mode, table.mode? page tid = some mode := by
  rw [← Option.isSome_iff_exists, mode?]
  simp only [pagesOf, List.mem_map, List.mem_filter]
  constructor
  · rintro ⟨entry, ⟨hentry, hheld⟩, rfl⟩
    rw [lock?, (lookup_eq_some_iff_mem hsound).mpr hentry]
    exact hheld
  · intro hheld
    obtain ⟨mode, hmode⟩ := Option.isSome_iff_exists.mp hheld
    obtain ⟨lock, hlock, hmode⟩ := Option.bind_eq_some_iff.mp hmode
    exact ⟨(page, lock), ⟨(lookup_eq_some_iff_mem hsound).mp hlock, by simp [hmode]⟩, rfl⟩

theorem nodup_pagesOf (hsound : table.Sound) : (table.pagesOf tid).Nodup :=
  hsound.sublist (List.filter_sublist.map _)

/-- The table and the set of held locks go the same way. -/
theorem Tidy.serve (htidy : table.Tidy) (request : LockRequest) :
    (table.serve request).2.Tidy ∧
      (table.serve request).2.holders = Held.after table.holders request := by
  cases request with
  | acquire page tid mode =>
      have hfree := htidy.isSome_acquire?_iff page tid mode
      simp only [LockTable.serve, Held.after]
      cases hacquire : table.acquire? page tid mode with
      | some after =>
          rw [if_pos (hfree.mp (by simp [hacquire]))]
          exact ⟨htidy.acquire? hacquire, holders_of_acquire? hacquire⟩
      | none =>
          have hrefused : ¬ Holders.Free (table.holders page) tid mode := fun hgranted => by
            simpa [hacquire] using hfree.mpr hgranted
          rw [if_neg hrefused]
          exact ⟨htidy, rfl⟩
  | release page tid =>
      obtain ⟨hafter, hholders⟩ := htidy.changed tid (· = page) (table.release_eq page tid)
      refine ⟨hafter, funext fun other => ?_⟩
      rw [LockTable.serve, hholders, Held.after]
      by_cases hother : other = page
      · simp [hother]
      · simp [hother]
  | releaseAll tid =>
      have hall : table.releaseAll tid =
          table.changed fun _ lock => if True then lock.without? tid else some lock := by
        simp only [if_true]
        rfl
      obtain ⟨hafter, hholders⟩ := htidy.changed tid (fun _ => True) hall
      exact ⟨hafter, funext fun other => by rw [LockTable.serve, hholders, if_pos trivial]; rfl⟩

theorem Tidy.answers (htidy : table.Tidy) (request : LockRequest) :
    Held.Answers table.holders request (table.serve request).1 := by
  cases request with
  | acquire page tid mode =>
      have hfree := htidy.isSome_acquire?_iff page tid mode
      simp only [LockTable.serve]
      cases hacquire : table.acquire? page tid mode with
      | some after => simpa [Held.Answers, hacquire] using hfree
      | none => simpa [Held.Answers, hacquire] using hfree
  | release page tid =>
      simp only [LockTable.serve, Held.Answers, holds, Option.isSome_iff_exists, mode?_eq_some_iff]
  | releaseAll tid =>
      refine ⟨nodup_pagesOf htidy.sound, fun page => ?_⟩
      simp only [mem_pagesOf_iff htidy.sound, mode?_eq_some_iff]

/-! ## Runs -/

/-- The table after some requests. -/
def serveAll (table : LockTable) (requests : List LockRequest) : LockTable :=
  requests.foldl (fun table request => (table.serve request).2) table

theorem tidy_empty : empty.Tidy :=
  ⟨List.nodup_nil, fun page lock hlock => by simp [empty, lock?] at hlock⟩

theorem Tidy.serveAll (htidy : table.Tidy) (requests : List LockRequest) :
    (table.serveAll requests).Tidy ∧
      (table.serveAll requests).holders = Held.afterAll table.holders requests := by
  induction requests generalizing table with
  | nil => exact ⟨htidy, rfl⟩
  | cons request requests ih =>
      obtain ⟨hnext, hholders⟩ := htidy.serve request
      obtain ⟨hlast, hall⟩ := ih hnext
      rw [hholders] at hall
      exact ⟨hlast, hall⟩

/-- A request changes no lock but those of its transaction.  If it is refused it changes none; if it
is granted, the lock is held in the mode asked for or a stronger one, and never in a weaker one than
before. -/
structure Obeys (table : LockTable) (request : LockRequest) (answer : LockAnswer)
    (after : LockTable) : Prop where
  others : ∀ page who, who ≠ request.tid → after.mode? page who = table.mode? page who
  refused : answer = .granted false → after = table
  granted : ∀ page mode, request = .acquire page request.tid mode → answer = .granted true →
    ∃ now, after.mode? page request.tid = some now ∧
      (mode = .exclusive ∨ table.mode? page request.tid = some .exclusive → now = .exclusive)

theorem obeys_serve (hsound : table.Sound) (request : LockRequest) :
    table.Obeys request (table.serve request).1 (table.serve request).2 := by
  cases request with
  | acquire page tid mode =>
      simp only [serve]
      cases hacquire : table.acquire? page tid mode with
      | none => exact ⟨fun _ _ _ => rfl, fun _ => rfl, fun _ _ _ hgranted => by simp at hgranted⟩
      | some after =>
          have hmode := mode?_of_acquire? hacquire
          refine ⟨?_, fun hrefused => by simp at hrefused, ?_⟩
          · intro other who hwho
            rw [hmode, if_neg fun hsame => hwho hsame.2]
          · intro other asked hsame _
            obtain ⟨rfl, -, rfl⟩ := LockRequest.acquire.inj hsame
            refine ⟨_, by rw [hmode]; exact if_pos ⟨rfl, rfl⟩, ?_⟩
            rintro (rfl | hheld)
            · exact LockMode.raised_exclusive _
            · rw [LockRequest.tid] at hheld
              rw [hheld]
              rfl
  | release page tid =>
      refine ⟨fun other who hwho => ?_, by simp [serve], fun _ _ hsame => by simp at hsame⟩
      rw [serve, mode?_release hsound]
      exact if_neg fun hsame => hwho hsame.2
  | releaseAll tid =>
      refine ⟨fun other who hwho => ?_, by simp [serve], fun _ _ hsame => by simp at hsame⟩
      rw [serve, mode?_releaseAll hsound]
      exact if_neg hwho

/-- After any requests the table represents the locks that the rules say are held, and the next
request is answered, and changes the table, as they say. -/
theorem refines_held (requests : List LockRequest) (request : LockRequest) :
    (empty.serveAll requests).Represents (Held.afterAll Held.nothing requests) ∧
    (Held.afterAll Held.nothing requests).Answers request
      ((empty.serveAll requests).serve request).1 ∧
    (empty.serveAll requests).Obeys request ((empty.serveAll requests).serve request).1
      ((empty.serveAll requests).serve request).2 := by
  obtain ⟨htidy, hholders⟩ := tidy_empty.serveAll requests
  have hheld : (empty.serveAll requests).holders = Held.afterAll Held.nothing requests := hholders
  rw [← hheld]
  exact ⟨htidy.represents, htidy.answers request, obeys_serve htidy.sound request⟩

end LockTable

end HeapStore
