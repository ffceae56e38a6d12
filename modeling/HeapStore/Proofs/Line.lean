import HeapStore.Proofs.Pool

/-!
# The line of cached frames

The cached frames stand in a line.  A request for a page (`Request`) leaves the line as it is, or
appends a frame, for which the first frame that may leave is taken out if there is no room
(`Departs`, `evict_line`); if no frame may leave, the error says why (`Stuck`).

The stamps say the same without an order.  `listed` and `evictAny` work on frames in any order, as
a table without an order would give them: sorting by stamps gives the line (`listed_eq`), and the
oldest frame that may leave is the first one of the line (`evictAny_eq`).
-/

namespace HeapStore

/-- The frame is clean and nobody is changing it. -/
def Frame.mayLeave (latched : List Nat) (frame : Frame) : Bool :=
  !latched.contains frame.stamp && frame.page.owner.isNone

namespace Pool

/-! ## What happens to the line -/

/-- All frames keep their stamps, their addresses and their places. -/
structure Unmoved (pool after : Pool) : Prop where
  stamps : after.resident.map (·.stamp) = pool.resident.map (·.stamp)
  cached : after.cached = pool.cached
  settings : after.settings = pool.settings

/-- The first frame that may leave is taken out of the line. -/
inductive Departs (latched : List Nat) : List Frame → List Frame → Prop
  | first {front back : List Frame} {victim : Frame}
      (hfront : ∀ frame ∈ front, frame.mayLeave latched = false)
      (hvictim : victim.mayLeave latched = true) :
      Departs latched (front ++ victim :: back) (front ++ back)

/-- No frame may leave, and the error says why: some are latched, or all pages were changed. -/
structure Stuck (latched : List Nat) (line : List Frame) (error : StoreError) : Prop where
  nobody : ∀ frame ∈ line, frame.mayLeave latched = false
  error :
    error =
      let inUse := line.countP (latched.contains ·.stamp)
      if inUse = 0 then .allPagesDirty line.length else .noEvictablePage line.length inUse

/-- There is room for another frame, or a frame leaves. -/
inductive MakesRoom (capacity : Nat) (latched : List Nat) (line : List Frame) :
    List Frame → Prop
  | free (hroom : line.length < capacity) : MakesRoom capacity latched line line
  | full {left : List Frame} (hfull : line.length = capacity)
      (hdeparts : Departs latched line left) :
      MakesRoom capacity latched line left

/-- What a request for a page gives and does to the line.  `source` is what is read from the file
if the page is not cached. -/
inductive Request (capacity : Nat) (latched : List Nat) (address : PageAddress)
    (source : Except StoreError Page) (line : List Frame) :
    Except StoreError Frame → List Frame → Prop
  | hit {frame : Frame} (hframe : frame ∈ line) (haddress : frame.page.address = address) :
      Request capacity latched address source line (.ok frame) line
  | loaded {left : List Frame} {page : Page} {stamp : Nat}
      (hmissing : ∀ frame ∈ line, frame.page.address ≠ address)
      (hroom : MakesRoom capacity latched line left) (hsource : source = .ok page)
      (haddress : page.address = address) (hstamp : ∀ frame ∈ line, frame.stamp < stamp) :
      Request capacity latched address source line (.ok ⟨stamp, page⟩) (left ++ [⟨stamp, page⟩])
  | unread {left : List Frame} {error : StoreError}
      (hmissing : ∀ frame ∈ line, frame.page.address ≠ address)
      (hroom : MakesRoom capacity latched line left) (hsource : source = .error error) :
      Request capacity latched address source line (.error error) left
  | refused {error : StoreError} (hmissing : ∀ frame ∈ line, frame.page.address ≠ address)
      (hfull : line.length = capacity) (hstuck : Stuck latched line error) :
      Request capacity latched address source line (.error error) line

/-- Requests one after the other, while nobody holds a latch. -/
inductive Requests (capacity : Nat) : List Frame → List Frame → Prop
  | done (line : List Frame) : Requests capacity line line
  | ask {line asked after : List Frame} {address : PageAddress} {source : Except StoreError Page}
      {answer : Except StoreError Frame}
      (hrequest : Request capacity [] address source line answer asked)
      (hrest : Requests capacity asked after) : Requests capacity line after

/-- Several pages were asked for. -/
structure Asked (pool after : Pool) : Prop where
  requests : Requests pool.settings.capacity pool.resident after.resident
  settings : after.settings = pool.settings

/-- Puts a changed page back: into the frame of its address, or else into a new one for which room
is made. -/
def putBack (pool : Pool) (page : Page) : Except StoreError Pool :=
  match pool.find? page.address with
  | some frame => .ok (pool.replace frame.stamp page)
  | none => (pool.makeRoom []).map fun roomier => (roomier.load page).2

variable {pool after : Pool} {frame : Frame} {page : Page} {latched : List Nat}

theorem Unmoved.refl (pool : Pool) : pool.Unmoved pool :=
  ⟨rfl, rfl, rfl⟩

theorem Unmoved.trans {last : Pool} (hfirst : pool.Unmoved after) (hsecond : after.Unmoved last) :
    pool.Unmoved last :=
  ⟨hsecond.stamps.trans hfirst.stamps, hsecond.cached.trans hfirst.cached,
    hsecond.settings.trans hfirst.settings⟩

theorem Requests.trans {capacity : Nat} {line asked last : List Frame}
    (hfirst : Requests capacity line asked) (hsecond : Requests capacity asked last) :
    Requests capacity line last := by
  induction hfirst with
  | done line => exact hsecond
  | ask hrequest _ ih => exact .ask hrequest (ih hsecond)

theorem Asked.refl (pool : Pool) : pool.Asked pool :=
  ⟨.done _, rfl⟩

theorem Asked.trans {last : Pool} (hfirst : pool.Asked after) (hsecond : after.Asked last) :
    pool.Asked last := by
  refine ⟨hfirst.requests.trans ?_, hsecond.settings.trans hfirst.settings⟩
  rw [← hfirst.settings]
  exact hsecond.requests

/-- A frame gets another content of its address. -/
theorem unmoved_replace (hsound : pool.Sound) (hmem : frame ∈ pool.resident)
    (haddress : page.address = frame.page.address) :
    pool.Unmoved (pool.replace frame.stamp page) :=
  ⟨stamps_replace pool frame.stamp page, hsound.cached_replace hmem haddress, rfl⟩

/-! ## Evicting -/

/-- An eviction takes out the first frame that may leave, or there is none. -/
theorem evict_line (hsound : pool.Sound) (latched : List Nat) :
    (∃ left, pool.evict latched = .ok left ∧ left.settings = pool.settings ∧
        left.nextStamp = pool.nextStamp ∧ Departs latched pool.resident left.resident) ∨
      ∃ error, pool.evict latched = .error error ∧ Stuck latched pool.resident error := by
  unfold evict
  cases hvictim : pool.victim? latched with
  | some victim =>
      refine Or.inl ⟨_, rfl, rfl, rfl, ?_⟩
      obtain ⟨hleave, front, back, hline, hfront⟩ := List.find?_eq_some_iff_append.mp hvictim
      -- The other frames have other stamps.
      have hstamps := hsound.stamps
      rw [hline, List.map_append, List.map_cons, List.nodup_middle, List.nodup_cons] at hstamps
      have hothers : (front ++ back).filter (fun frame => !decide (frame.stamp = victim.stamp))
          = front ++ back := by
        rw [List.filter_eq_self]
        intro frame hframe
        have hstamp : frame.stamp ≠ victim.stamp := by
          intro heq
          apply hstamps.1
          rw [← List.map_append, ← heq]
          exact List.mem_map_of_mem hframe
        simp [hstamp]
      have hleft : (pool.depart (·.stamp = victim.stamp)).resident = front ++ back := by
        rw [← hothers]
        simp [depart, hline]
      rw [hleft, hline]
      exact .first (fun frame hframe => (Bool.not_eq_true' _).mp (hfront frame hframe)) hleave
  | none =>
      refine Or.inr ⟨if pool.resident.countP (latched.contains ·.stamp) = 0 then
        .allPagesDirty pool.resident.length
        else .noEvictablePage pool.resident.length
          (pool.resident.countP (latched.contains ·.stamp)), ?_, ?_, rfl⟩
      · simp only
        split <;> rfl
      · intro frame hframe
        have hno := List.find?_eq_none.mp hvictim frame hframe
        rwa [Bool.not_eq_true] at hno

theorem makeRoom_line (hsound : pool.Sound) (latched : List Nat) :
    (∃ left, pool.makeRoom latched = .ok left ∧ left.settings = pool.settings ∧
        left.nextStamp = pool.nextStamp ∧
        MakesRoom pool.settings.capacity latched pool.resident left.resident) ∨
      ∃ error, pool.makeRoom latched = .error error ∧
        pool.resident.length = pool.settings.capacity ∧ Stuck latched pool.resident error := by
  unfold makeRoom
  by_cases hfull : pool.isFull = true
  · rw [if_pos hfull]
    have hlength : pool.resident.length = pool.settings.capacity :=
      Nat.le_antisymm hsound.room (by simpa [isFull] using hfull)
    rcases evict_line hsound latched with ⟨left, hevict, hsettings, hnext, hdeparts⟩ |
      ⟨error, hevict, hstuck⟩
    · exact Or.inl ⟨left, hevict, hsettings, hnext, .full hlength hdeparts⟩
    · exact Or.inr ⟨error, hevict, hlength, hstuck⟩
  · rw [if_neg hfull]
    have hroom : pool.resident.length < pool.settings.capacity := by simpa [isFull] using hfull
    exact Or.inl ⟨pool, rfl, rfl, rfl, .free hroom⟩

/-- A page that is in its frame is put back there. -/
theorem putBack_eq (hsound : pool.Sound) (hmem : frame ∈ pool.resident)
    (haddress : page.address = frame.page.address) :
    pool.putBack page = .ok (pool.replace frame.stamp page) := by
  have hfind : pool.find? page.address = some frame :=
    hsound.find?_eq_some_iff.mpr ⟨hmem, haddress.symm⟩
  simp only [putBack, hfind]

/-! ## Stamps along the line -/

/-- The frames stand in the order of their stamps. -/
def Aged (line : List Frame) : Prop :=
  line.Pairwise fun a b => a.stamp < b.stamp

theorem Unmoved.aged (hunmoved : pool.Unmoved after) (haged : Aged pool.resident) :
    Aged after.resident := by
  have hstamps := List.pairwise_map.mpr haged
  rw [← hunmoved.stamps] at hstamps
  exact List.pairwise_map.mp hstamps

theorem Departs.sublist {line left : List Frame} (hdeparts : Departs latched line left) :
    left.Sublist line := by
  cases hdeparts with
  | first hfront hvictim => exact (List.sublist_cons_self _ _).append_left _

theorem MakesRoom.sublist {capacity : Nat} {line left : List Frame}
    (hroom : MakesRoom capacity latched line left) : left.Sublist line := by
  cases hroom with
  | free _ => exact List.Sublist.refl _
  | full _ hdeparts => exact hdeparts.sublist

theorem Request.aged {capacity : Nat} {address : PageAddress} {source : Except StoreError Page}
    {line asked : List Frame} {answer : Except StoreError Frame}
    (hrequest : Request capacity latched address source line answer asked) (haged : Aged line) :
    Aged asked := by
  cases hrequest with
  | hit _ _ => exact haged
  | loaded _ hroom _ _ hstamp =>
      refine List.pairwise_append.mpr
        ⟨haged.sublist hroom.sublist, List.pairwise_singleton _ _, ?_⟩
      intro frame hframe last hlast
      rw [List.mem_singleton.mp hlast]
      exact hstamp frame (hroom.sublist.subset hframe)
  | unread _ hroom _ => exact haged.sublist hroom.sublist
  | refused _ _ _ => exact haged

theorem Requests.aged {capacity : Nat} {line asked : List Frame}
    (hrequests : Requests capacity line asked) (haged : Aged line) : Aged asked := by
  induction hrequests with
  | done line => exact haged
  | ask hrequest _ ih => exact ih (hrequest.aged haged)

/-! ## Frames without an order -/

/-- One frame that a walk comes to: the number of latched frames so far, and the oldest frame so
far that may leave. -/
def meet (latched : List Nat) (found : Nat × Option Frame) (frame : Frame) : Nat × Option Frame :=
  if latched.contains frame.stamp then (found.1 + 1, found.2)
  else if frame.page.owner.isNone && found.2.all (frame.stamp < ·.stamp) then (found.1, some frame)
  else found

/-- What a walk over frames in any order finds. -/
def oldest (latched : List Nat) (entries : List Frame) : Nat × Option Frame :=
  entries.foldl (meet latched) (0, none)

/-- Evicts the oldest frame that may leave from frames in any order. -/
def evictAny (latched : List Nat) (entries : List Frame) : Except StoreError (List Frame) :=
  match oldest latched entries with
  | (_, some victim) => .ok (entries.filter fun entry => entry.page.address ≠ victim.page.address)
  | (inUse, none) =>
    if 0 < inUse then .error (.noEvictablePage entries.length inUse)
    else .error (.allPagesDirty entries.length)

/-- The addresses of frames in any order, sorted by their stamps. -/
def listed (entries : List Frame) : List PageAddress :=
  (inOrder (fun a b => decide (a.stamp ≤ b.stamp)) entries).map (·.page.address)

/-- Of two frames with different stamps it does not matter which one a walk comes to first. -/
theorem meet_comm (latched : List Nat) {a b : Frame} (hstamps : a.stamp ≠ b.stamp)
    (found : Nat × Option Frame) :
    meet latched (meet latched found a) b = meet latched (meet latched found b) a := by
  obtain ⟨inUse, victim⟩ := found
  simp only [meet]
  cases latched.contains a.stamp <;> cases latched.contains b.stamp <;>
    cases a.page.owner.isNone <;> cases b.page.owner.isNone <;> cases victim <;> grind

/-- A frame that is younger than the one found so far is taken only if none was found. -/
theorem meet_of_younger (latched : List Nat) {inUse : Nat} {victim : Option Frame} {frame : Frame}
    (hvictim : ∀ found ∈ victim, found.stamp < frame.stamp) :
    meet latched (inUse, victim) frame =
      (inUse + (if latched.contains frame.stamp = true then 1 else 0),
        victim.or (if frame.mayLeave latched = true then some frame else none)) := by
  simp only [meet, Frame.mayLeave]
  by_cases hlatched : frame.stamp ∈ latched
  · simp [hlatched]
  · cases victim with
    | none => by_cases howner : frame.page.owner = none <;> simp [hlatched, howner]
    | some found =>
        have hyounger : ¬ frame.stamp < found.stamp := Nat.lt_asymm (hvictim found rfl)
        simp [hlatched, hyounger]

/-- Along the line the first frame that may leave is the oldest one. -/
theorem foldl_meet (latched : List Nat) {line : List Frame} (haged : Aged line) (inUse : Nat)
    (victim : Option Frame)
    (hvictim : ∀ found ∈ victim, ∀ frame ∈ line, found.stamp < frame.stamp) :
    line.foldl (meet latched) (inUse, victim) =
      (inUse + line.countP (latched.contains ·.stamp),
        victim.or (line.find? (·.mayLeave latched))) := by
  induction line generalizing inUse victim with
  | nil => simp
  | cons frame line ih =>
      obtain ⟨hbehind, hrest⟩ := List.pairwise_cons.mp haged
      rw [List.foldl_cons, meet_of_younger latched fun found hfound =>
        hvictim found hfound frame List.mem_cons_self]
      have holder :
          ∀ found ∈ victim.or (if frame.mayLeave latched = true then some frame else none),
          ∀ other ∈ line, found.stamp < other.stamp := by
        intro found hfound other hother
        rcases Option.or_eq_some_iff.mp hfound with hfound | ⟨-, hfound⟩
        · exact hvictim found hfound other (List.mem_cons_of_mem _ hother)
        · split at hfound
          · exact Option.some.inj hfound ▸ hbehind other hother
          · exact absurd hfound (by simp)
      rw [ih hrest _ _ holder, List.countP_cons, List.find?_cons, Nat.add_assoc, Option.or_assoc]
      congr 1
      · congr 1
        exact Nat.add_comm _ _
      · cases frame.mayLeave latched <;> rfl

/-- A walk in any order finds what the line says. -/
theorem oldest_eq (haged : Aged pool.resident) {entries : List Frame}
    (hperm : entries.Perm pool.resident) (latched : List Nat) :
    oldest latched entries =
      (pool.resident.countP (latched.contains ·.stamp), pool.victim? latched) := by
  have hdistinct : entries.Pairwise fun a b => a.stamp ≠ b.stamp :=
    hperm.symm.pairwise (haged.imp Nat.ne_of_lt) Ne.symm
  have hcomm : ∀ a ∈ entries, ∀ b ∈ entries, ∀ found,
      meet latched (meet latched found a) b = meet latched (meet latched found b) a := by
    intro a ha b hb found
    by_cases hsame : a.stamp = b.stamp
    · rw [List.inj_on_of_nodup_map (List.pairwise_map.mpr hdistinct) ha hb hsame]
    · exact meet_comm latched hsame found
  have hline := foldl_meet latched haged 0 none (by simp)
  rw [oldest, hperm.foldl_eq' hcomm, hline, Nat.zero_add, Option.none_or]
  rfl

/-- The frames in any order, sorted by their stamps, are the line. -/
theorem listed_eq (hsound : pool.Sound) (haged : Aged pool.resident) {entries : List Frame}
    (hperm : entries.Perm pool.resident) : listed entries = pool.cached := by
  have hperm' := (perm_inOrder (fun a b : Frame => decide (a.stamp ≤ b.stamp)) entries).trans hperm
  have hsorted := pairwise_inOrder (fun a b : Frame => decide (a.stamp ≤ b.stamp))
    (fun a b => by simpa using Nat.le_total a.stamp b.stamp)
    (fun a b c => by simpa using Nat.le_trans) entries
  have hline : inOrder (fun a b => decide (a.stamp ≤ b.stamp)) entries = pool.resident := by
    refine hperm'.eq_of_pairwise ?_ hsorted
      (haged.imp fun hlt => decide_eq_true (Nat.le_of_lt hlt))
    intro a b ha hb hab hba
    have hstamps : a.stamp = b.stamp :=
      Nat.le_antisymm (of_decide_eq_true hab) (of_decide_eq_true hba)
    exact hsound.eq_of_stamp (hperm'.mem_iff.mp ha) hb hstamps
  rw [listed, hline, cached]

/-- An eviction from frames in any order gives what the eviction from the line gives. -/
theorem evictAny_eq (hsound : pool.Sound) (haged : Aged pool.resident) {entries : List Frame}
    (hperm : entries.Perm pool.resident) (latched : List Nat) :
    (∃ rest left, evictAny latched entries = .ok rest ∧ pool.evict latched = .ok left ∧
        rest.Perm left.resident) ∨
      ∃ error, evictAny latched entries = .error error ∧ pool.evict latched = .error error := by
  simp only [evictAny, oldest_eq haged hperm, evict]
  cases hvictim : pool.victim? latched with
  | some victim =>
      refine Or.inl ⟨_, _, rfl, rfl, ?_⟩
      have hmem := (of_victim? hvictim).1
      -- Stamp and address name the same frame.
      have hkeys : ∀ frame ∈ pool.resident,
          (!decide (frame.stamp = victim.stamp))
            = decide (frame.page.address ≠ victim.page.address) := by
        intro frame hframe
        by_cases hsame : frame = victim
        · simp [hsame]
        · have hstamp : frame.stamp ≠ victim.stamp :=
            fun heq => hsame (hsound.eq_of_stamp hframe hmem heq)
          have haddress : frame.page.address ≠ victim.page.address :=
            fun heq => hsame (hsound.eq_of_address hframe hmem heq)
          simp [hstamp, haddress]
      rw [depart, List.filter_congr hkeys]
      exact hperm.filter _
  | none =>
      refine Or.inr ?_
      rw [hperm.length_eq]
      cases pool.resident.countP (latched.contains ·.stamp) with
      | zero => exact ⟨_, rfl, rfl⟩
      | succ inUse => exact ⟨_, rfl, rfl⟩

end Pool

end HeapStore
