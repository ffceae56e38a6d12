import Mathlib.Data.List.Nodup

/-!
# Look-up by keys

Where no two elements of a list share a key, the one with a key is found by it.  The disk and the
lock table are lists of pairs in which the first pair with a key counts; the lemmas say what is
found there after one key has got another value, after a pair was added at the end, and, where no
two pairs share a key, after pairs were changed one by one or taken out.
-/

namespace HeapStore

theorem find?_key_eq_some_iff {α κ : Type} [DecidableEq κ] (key : α → κ) {items : List α}
    (hkeys : (items.map key).Nodup) {k : κ} {a : α} :
    items.find? (fun item => key item = k) = some a ↔ a ∈ items ∧ key a = k := by
  constructor
  · intro hfind
    have hkey := List.find?_some hfind
    exact ⟨List.mem_of_find?_eq_some hfind, by simpa using hkey⟩
  · rintro ⟨hmem, rfl⟩
    cases hfind : items.find? (fun item => key item = key a) with
    | none =>
        have hmissing := List.find?_eq_none.mp hfind a hmem
        simp at hmissing
    | some other =>
        have hkey := List.find?_some hfind
        rw [List.inj_on_of_nodup_map hkeys (List.mem_of_find?_eq_some hfind) hmem
          (by simpa using hkey)]

variable {κ β : Type} [BEq κ] [LawfulBEq κ] [DecidableEq κ]

theorem lookup_cons_eq (first : κ) (content : β) (pairs : List (κ × β)) (key : κ) :
    ((first, content) :: pairs).lookup key =
      if key = first then some content else pairs.lookup key := by
  by_cases hkey : key = first
  · simp [hkey]
  · simp [List.lookup_cons, beq_eq_false_iff_ne.mpr hkey, hkey]

/-- Where no two pairs share a key, what is found is what is there. -/
theorem lookup_eq_some_iff_mem {pairs : List (κ × β)} (hkeys : (pairs.map (·.1)).Nodup) {key : κ}
    {value : β} : pairs.lookup key = some value ↔ (key, value) ∈ pairs := by
  induction pairs with
  | nil => simp
  | cons pair pairs ih =>
      obtain ⟨first, content⟩ := pair
      obtain ⟨hout, hrest⟩ := List.nodup_cons.mp hkeys
      rw [lookup_cons_eq]
      by_cases hkey : key = first
      · subst hkey
        have hmissing : (key, value) ∉ pairs := fun hmem =>
          hout (List.mem_map.mpr ⟨_, hmem, rfl⟩)
        simp [hmissing, eq_comm]
      · simp [hkey, ih hrest]

/-- After the values of one key were replaced. -/
theorem lookup_map_replace (key : κ) (value : β) (pairs : List (κ × β)) (other : κ) :
    (pairs.map fun pair => if pair.1 = key then (key, value) else pair).lookup other =
      if other = key then (pairs.lookup key).map fun _ => value else pairs.lookup other := by
  induction pairs with
  | nil => simp
  | cons pair pairs ih =>
      obtain ⟨first, content⟩ := pair
      by_cases hfirst : first = key
      · subst hfirst
        simp only [List.map_cons, if_true, lookup_cons_eq, ih]
        by_cases hother : other = first
        · simp [hother]
        · simp [hother]
      · simp only [List.map_cons, if_neg hfirst, lookup_cons_eq, ih]
        by_cases hother : other = key
        · subst hother
          simp [Ne.symm hfirst]
        · simp [hother]

/-- After the values of one key were taken out. -/
theorem lookup_filter_ne (key : κ) (pairs : List (κ × β)) (other : κ) :
    (pairs.filter (·.1 ≠ key)).lookup other =
      if other = key then none else pairs.lookup other := by
  induction pairs with
  | nil => simp
  | cons pair pairs ih =>
      obtain ⟨first, content⟩ := pair
      by_cases hfirst : first = key
      · subst hfirst
        rw [List.filter_cons_of_neg (by simp), ih, lookup_cons_eq]
        split <;> simp_all
      · rw [List.filter_cons_of_pos (by simpa using hfirst), lookup_cons_eq, lookup_cons_eq, ih]
        by_cases hother : other = first
        · subst hother
          simp [hfirst]
        · simp [hother]

theorem lookup_append_of_none {key : κ} {value : β} {pairs : List (κ × β)}
    (hnone : pairs.lookup key = none) (other : κ) :
    (pairs ++ [(key, value)]).lookup other =
      if other = key then some value else pairs.lookup other := by
  rw [List.lookup_append]
  by_cases hother : other = key
  · subst hother
    simp [hnone]
  · simp [hother, lookup_cons_eq]

/-- After each pair was changed or taken out, where no two pairs share a key. -/
theorem lookup_filterMap (change : κ → β → Option β) (pairs : List (κ × β))
    (hkeys : (pairs.map (·.1)).Nodup) (key : κ) :
    (pairs.filterMap fun pair => (change pair.1 pair.2).map (pair.1, ·)).lookup key =
      (pairs.lookup key).bind (change key) := by
  induction pairs with
  | nil => simp
  | cons pair pairs ih =>
      obtain ⟨first, content⟩ := pair
      obtain ⟨hout, hrest⟩ := List.nodup_cons.mp hkeys
      have hothers := ih hrest
      rw [List.filterMap_cons, lookup_cons_eq]
      by_cases hfirst : key = first
      · subst hfirst
        have hmissing : pairs.lookup key = none := by
          rw [List.lookup_eq_none_iff]
          intro pair hpair
          have hkey : pair.1 ∈ pairs.map (·.1) := List.mem_map_of_mem hpair
          have hne : key ≠ pair.1 := fun heq => hout (heq ▸ hkey)
          simpa using hne
        cases hchange : change key content with
        | none => simp [hchange, hothers, hmissing]
        | some changed => simp [hchange]
      · cases hchange : change first content with
        | none => simp [hothers, hfirst]
        | some changed => simp [hothers, hfirst, lookup_cons_eq]

omit [BEq κ] [LawfulBEq κ] [DecidableEq κ] in
theorem nodup_keys_filterMap {change : κ → β → Option β} {pairs : List (κ × β)}
    (hkeys : (pairs.map (·.1)).Nodup) :
    ((pairs.filterMap fun pair => (change pair.1 pair.2).map (pair.1, ·)).map (·.1)).Nodup := by
  induction pairs with
  | nil => simp
  | cons pair pairs ih =>
      obtain ⟨first, content⟩ := pair
      obtain ⟨hout, hrest⟩ := List.nodup_cons.mp hkeys
      rw [List.filterMap_cons]
      cases hchange : change first content with
      | none => simpa [hchange] using ih hrest
      | some changed =>
          simp only [Option.map_some, List.map_cons]
          refine List.nodup_cons.mpr ⟨?_, ih hrest⟩
          intro hmem
          obtain ⟨kept, hkept, hkey⟩ := List.mem_map.mp hmem
          obtain ⟨original, horiginal, hsome⟩ := List.mem_filterMap.mp hkept
          obtain ⟨value, -, rfl⟩ := Option.map_eq_some_iff.mp hsome
          exact hout (List.mem_map.mpr ⟨original, horiginal, hkey⟩)

end HeapStore
