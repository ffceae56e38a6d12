import HeapStore.Pool
import HeapStore.Proofs.Lookup

/-!
# Sound caches

`Pool.Sound` says what holds of every cache that a store uses: no two frames share a stamp or an
address, the stamps were given out before, and the frames fit the capacity.  Loading, replacing,
departing and evicting keep it, and the lemmas say which frames are cached afterwards.
-/

namespace HeapStore

namespace Pool

variable {pool : Pool} {frame : Frame} {page : Page} {address : PageAddress}

/-- What holds of every cache that a store uses. -/
structure Sound (pool : Pool) : Prop where
  stamps : (pool.resident.map (·.stamp)).Nodup
  addresses : pool.cached.Nodup
  given : ∀ frame ∈ pool.resident, frame.stamp < pool.nextStamp
  room : pool.resident.length ≤ pool.settings.capacity

/-- A cache is created empty, with settings that are in range. -/
theorem of_create {settings : Settings} {catalog : Catalog}
    (hcreate : create settings catalog = .ok pool) :
    0 < settings.pageSize ∧ settings.pageSize ≤ maxPageSize ∧
      pool = ⟨settings, [], [], 0, .empty⟩ := by
  simp only [create, Settings.validate, bind, Except.bind] at hcreate
  split at hcreate
  · exact absurd hcreate (by simp)
  · rename_i hvalid
    split at hvalid
    · exact absurd hvalid (by simp)
    · split at hvalid
      · exact absurd hvalid (by simp)
      · rename_i hsize
        simp only [Bool.or_eq_true, decide_eq_true_eq, not_or] at hsize
        split at hcreate
        · exact absurd hcreate (by simp)
        · exact ⟨Nat.pos_of_ne_zero hsize.1, Nat.le_of_not_lt hsize.2,
            (Except.ok.inj hcreate).symm⟩

/-! ## Looking -/

theorem Sound.eq_of_stamp (hsound : pool.Sound) {a b : Frame} (ha : a ∈ pool.resident)
    (hb : b ∈ pool.resident) (hstamp : a.stamp = b.stamp) : a = b :=
  List.inj_on_of_nodup_map hsound.stamps ha hb hstamp

theorem Sound.eq_of_address (hsound : pool.Sound) {a b : Frame} (ha : a ∈ pool.resident)
    (hb : b ∈ pool.resident) (haddress : a.page.address = b.page.address) : a = b :=
  List.inj_on_of_nodup_map hsound.addresses ha hb haddress

theorem Sound.find?_eq_some_iff (hsound : pool.Sound) :
    pool.find? address = some frame ↔ frame ∈ pool.resident ∧ frame.page.address = address :=
  find?_key_eq_some_iff (fun frame : Frame => frame.page.address) hsound.addresses

theorem not_mem_cached_of_find? (hfind : pool.find? address = none) : address ∉ pool.cached := by
  intro hmem
  obtain ⟨frame, hframe, haddress⟩ := List.mem_map.mp hmem
  have hmissing := List.find?_eq_none.mp hfind frame hframe
  simp [haddress] at hmissing

/-! ## Loading -/

theorem sound_load (hsound : pool.Sound) (hnew : page.address ∉ pool.cached)
    (hroom : pool.resident.length < pool.settings.capacity) : (pool.load page).2.Sound := by
  refine ⟨?_, ?_, ?_, ?_⟩
  -- The new stamp is above all that were given.
  · simp only [load, List.map_append, List.map_cons, List.map_nil]
    refine List.nodup_append.mpr ⟨hsound.stamps, List.nodup_singleton _, ?_⟩
    intro stamp hstamp other hother
    obtain ⟨frame, hframe, rfl⟩ := List.mem_map.mp hstamp
    rw [List.mem_singleton.mp hother]
    exact Nat.ne_of_lt (hsound.given frame hframe)
  · simp only [load, cached, List.map_append, List.map_cons, List.map_nil]
    refine List.nodup_append.mpr ⟨hsound.addresses, List.nodup_singleton _, ?_⟩
    intro address haddress other hother heq
    rw [List.mem_singleton.mp hother] at heq
    exact hnew (heq ▸ haddress)
  · intro frame hframe
    rcases List.mem_append.mp hframe with hframe | hframe
    · exact Nat.lt_succ_of_lt (hsound.given frame hframe)
    · rw [List.mem_singleton.mp hframe]
      exact Nat.lt_succ_self _
  · simp only [load, List.length_append, List.length_cons, List.length_nil]
    omega

/-! ## Replacing -/

/-- The frame itself, or the new content if it has the stamp. -/
theorem mem_replace {stamp : Nat} :
    frame ∈ (pool.replace stamp page).resident ↔
      (frame ∈ pool.resident ∧ frame.stamp ≠ stamp) ∨
        (frame = ⟨stamp, page⟩ ∧ ∃ old ∈ pool.resident, old.stamp = stamp) := by
  simp only [replace, List.mem_map]
  constructor
  · rintro ⟨old, hold, rfl⟩
    by_cases hstamp : old.stamp = stamp
    · exact Or.inr ⟨by simp [hstamp], old, hold, hstamp⟩
    · exact Or.inl (by simp [hstamp, hold])
  · rintro (⟨hmem, hstamp⟩ | ⟨rfl, old, hold, hstamp⟩)
    · exact ⟨frame, hmem, by simp [hstamp]⟩
    · exact ⟨old, hold, by simp [hstamp]⟩

theorem stamps_replace (pool : Pool) (stamp : Nat) (page : Page) :
    (pool.replace stamp page).resident.map (·.stamp) = pool.resident.map (·.stamp) := by
  simp only [replace, List.map_map]
  apply List.map_congr_left
  intro frame _
  by_cases hstamp : frame.stamp = stamp
  · simp [hstamp]
  · simp [hstamp]

/-- A frame that gets another content keeps its place, if the content has its address. -/
theorem Sound.cached_replace (hsound : pool.Sound) (hmem : frame ∈ pool.resident)
    (haddress : page.address = frame.page.address) :
    (pool.replace frame.stamp page).cached = pool.cached := by
  simp only [cached, replace, List.map_map]
  apply List.map_congr_left
  intro other hother
  by_cases hstamp : other.stamp = frame.stamp
  · have heq := hsound.eq_of_stamp hother hmem hstamp
    simp [heq, haddress]
  · simp [hstamp]

theorem sound_replace (hsound : pool.Sound) (hmem : frame ∈ pool.resident)
    (haddress : page.address = frame.page.address) : (pool.replace frame.stamp page).Sound := by
  refine ⟨?_, ?_, ?_, ?_⟩
  · rw [stamps_replace]
    exact hsound.stamps
  · rw [hsound.cached_replace hmem haddress]
    exact hsound.addresses
  · intro other hother
    rcases mem_replace.mp hother with ⟨hother, -⟩ | ⟨rfl, -⟩
    · exact hsound.given other hother
    · exact hsound.given frame hmem
  · have hroom := hsound.room
    simpa [replace] using hroom

/-- The other frames are found as before. -/
theorem Sound.find?_replace_other (hsound : pool.Sound) (hmem : frame ∈ pool.resident)
    (hpage : page.address = frame.page.address) (hother : address ≠ frame.page.address) :
    (pool.replace frame.stamp page).find? address = pool.find? address := by
  have hafter := sound_replace hsound hmem hpage
  apply Option.ext
  intro found
  rw [hafter.find?_eq_some_iff, hsound.find?_eq_some_iff, mem_replace]
  constructor
  · rintro ⟨⟨hfound, -⟩ | ⟨rfl, -⟩, haddress⟩
    · exact ⟨hfound, haddress⟩
    · exact absurd (haddress.symm.trans hpage) hother
  · rintro ⟨hfound, haddress⟩
    refine ⟨Or.inl ⟨hfound, ?_⟩, haddress⟩
    intro hstamp
    rw [hsound.eq_of_stamp hfound hmem hstamp] at haddress
    exact hother haddress.symm

theorem replace_replace (pool : Pool) (stamp : Nat) (first second : Page) :
    (pool.replace stamp first).replace stamp second = pool.replace stamp second := by
  have hchange : ∀ frame : Frame,
      (if (if frame.stamp = stamp then (⟨stamp, first⟩ : Frame) else frame).stamp = stamp
        then (⟨stamp, second⟩ : Frame)
        else if frame.stamp = stamp then ⟨stamp, first⟩ else frame)
      = if frame.stamp = stamp then ⟨stamp, second⟩ else frame := by
    intro frame
    by_cases hstamp : frame.stamp = stamp
    · simp [hstamp]
    · simp [hstamp]
  simp [replace, Function.comp_def, hchange]

/-! ## Departing -/

theorem mem_depart {leaves : Frame → Bool} :
    frame ∈ (pool.depart leaves).resident ↔ frame ∈ pool.resident ∧ leaves frame = false := by
  simp [depart]

theorem sound_depart (hsound : pool.Sound) (leaves : Frame → Bool) :
    (pool.depart leaves).Sound := by
  have hsub : (pool.resident.filter (!leaves ·)).Sublist pool.resident := List.filter_sublist
  refine ⟨hsound.stamps.sublist (hsub.map _), hsound.addresses.sublist (hsub.map _), ?_, ?_⟩
  · intro frame hframe
    exact hsound.given frame (mem_depart.mp hframe).1
  · exact Nat.le_trans hsub.length_le hsound.room

/-! ## Evicting -/

theorem of_victim? {latched : List Nat} (hvictim : pool.victim? latched = some frame) :
    frame ∈ pool.resident ∧ frame.page.owner = none := by
  have hclean := List.find?_some hvictim
  simp only [Bool.and_eq_true, Option.isNone_iff_eq_none] at hclean
  exact ⟨List.mem_of_find?_eq_some hvictim, hclean.2⟩

theorem victim?_eq_none : pool.victim? [] = none ↔
    ∀ frame ∈ pool.resident, frame.page.owner.isSome = true := by
  simp [victim?, Option.isSome_iff_ne_none]

/-- What eviction does: a clean page leaves, or it fails. -/
theorem evict_cases (pool : Pool) (latched : List Nat) :
    (∃ victim ∈ pool.resident, victim.page.owner = none ∧
      pool.evict latched = .ok (pool.depart (·.stamp = victim.stamp))) ∨
    (∃ error, pool.evict latched = .error error ∧ pool.victim? latched = none) := by
  unfold evict
  cases hvictim : pool.victim? latched with
  | some victim =>
      obtain ⟨hmem, hclean⟩ := of_victim? hvictim
      exact Or.inl ⟨victim, hmem, hclean, rfl⟩
  | none =>
      refine Or.inr ?_
      simp only [and_true]
      split
      · exact ⟨_, rfl⟩
      · exact ⟨_, rfl⟩

/-- Without latches the only reason is that every page was changed. -/
theorem evict_nil (pool : Pool) :
    pool.evict [] =
      match pool.victim? [] with
      | some victim => .ok (pool.depart (·.stamp = victim.stamp))
      | none => .error (.allPagesDirty pool.resident.length) := by
  unfold evict
  cases pool.victim? [] with
  | some victim => rfl
  | none => simp

/-- Room was made: the frames left are among those before, and another one fits. -/
structure Roomier (pool after : Pool) : Prop where
  sound : after.Sound
  room : after.resident.length < after.settings.capacity
  settings : after.settings = pool.settings
  locks : after.locks = pool.locks
  kept : ∀ frame ∈ after.resident, frame ∈ pool.resident
  dirty : ∀ frame ∈ pool.resident, frame.page.owner.isSome = true → frame ∈ after.resident

theorem Roomier.not_mem_cached {after : Pool} (hroom : pool.Roomier after)
    (hfind : pool.find? address = none) : address ∉ after.cached := by
  intro hmem
  obtain ⟨frame, hframe, haddress⟩ := List.mem_map.mp hmem
  exact not_mem_cached_of_find? hfind
    (List.mem_map.mpr ⟨frame, hroom.kept frame hframe, haddress⟩)

theorem roomier_depart (hsound : pool.Sound) {victim : Frame} (hmem : victim ∈ pool.resident)
    (hclean : victim.page.owner = none) : pool.Roomier (pool.depart (·.stamp = victim.stamp)) := by
  refine ⟨sound_depart hsound _, ?_, rfl, rfl, fun frame hframe => (mem_depart.mp hframe).1, ?_⟩
  -- The victim itself is gone, so a frame fits again.
  · have hlt : (pool.resident.filter fun frame => !decide (frame.stamp = victim.stamp)).length
        < pool.resident.length := by
      apply Nat.lt_of_le_of_ne (List.length_filter_le _ _)
      intro hall
      have hkept := List.length_filter_eq_length_iff.mp hall victim hmem
      simp at hkept
    exact Nat.lt_of_lt_of_le hlt hsound.room
  · intro frame hframe hdirty
    refine mem_depart.mpr ⟨hframe, ?_⟩
    -- Stamps tell frames apart: a changed frame is not the victim and does not have its stamp.
    have hother : frame ≠ victim := by
      intro heq
      rw [heq, hclean] at hdirty
      simp at hdirty
    have hstamp : frame.stamp ≠ victim.stamp :=
      fun heq => hother (hsound.eq_of_stamp hframe hmem heq)
    simp [hstamp]

theorem roomier_of_makeRoom (hsound : pool.Sound) {latched : List Nat} {after : Pool}
    (hmade : pool.makeRoom latched = .ok after) : pool.Roomier after := by
  unfold makeRoom at hmade
  split at hmade
  · rcases evict_cases pool latched with ⟨victim, hmem, hclean, hevict⟩ | ⟨error, hevict, -⟩
    · rw [hevict] at hmade
      obtain rfl := Except.ok.inj hmade
      exact roomier_depart hsound hmem hclean
    · rw [hevict] at hmade
      exact absurd hmade (by simp)
  · rename_i hroom
    obtain rfl := Except.ok.inj hmade
    simp only [isFull, decide_eq_true_eq] at hroom
    exact ⟨hsound, by omega, rfl, rfl, fun _ h => h, fun _ h _ => h⟩

end Pool

end HeapStore
