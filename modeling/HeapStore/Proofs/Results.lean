/-!
# Steps that may fail

Steps that are taken one after the other give a value if each of them gives one, and otherwise the
error of the first one that fails.
-/

namespace HeapStore

variable {ε α β : Type}

theorem ok_of_toOption {result : Except ε α} {value : α}
    (hvalue : result.toOption = some value) : result = .ok value := by
  cases result with
  | error error => simp [Except.toOption] at hvalue
  | ok found => simpa [Except.toOption] using hvalue

section Bind

variable {step : Except ε α} {next : α → Except ε β}

theorem bind_eq_ok_iff {result : β} :
    step >>= next = .ok result ↔ ∃ value, step = .ok value ∧ next value = .ok result := by
  cases step with
  | error error =>
      refine iff_of_false (fun h => by cases h) ?_
      rintro ⟨value, hvalue, -⟩
      cases hvalue
  | ok value =>
      refine ⟨fun h => ⟨value, rfl, h⟩, ?_⟩
      rintro ⟨value, ⟨⟩, h⟩
      exact h

theorem bind_eq_error_iff {error : ε} :
    step >>= next = .error error ↔
      step = .error error ∨ ∃ value, step = .ok value ∧ next value = .error error := by
  cases step with
  | error fault =>
      refine ⟨fun h => Or.inl (by cases h; rfl), ?_⟩
      rintro (h | ⟨value, hvalue, -⟩)
      · cases h
        rfl
      · cases hvalue
  | ok value =>
      refine ⟨fun h => Or.inr ⟨value, rfl, h⟩, ?_⟩
      rintro (h | ⟨value, ⟨⟩, h⟩)
      · cases h
      · exact h

end Bind

section Walk

variable {step : α → Except ε β} {item : α} {items : List α}

theorem mapM_cons_eq_ok_iff {results : List β} :
    (item :: items).mapM step = .ok results ↔
      ∃ first others, step item = .ok first ∧ items.mapM step = .ok others ∧
        results = first :: others := by
  rw [List.mapM_cons, bind_eq_ok_iff]
  constructor
  · rintro ⟨first, hfirst, hrest⟩
    obtain ⟨others, hothers, hresults⟩ := bind_eq_ok_iff.mp hrest
    exact ⟨first, others, hfirst, hothers, (Except.ok.inj hresults).symm⟩
  · rintro ⟨first, others, hfirst, hothers, rfl⟩
    exact ⟨first, hfirst, bind_eq_ok_iff.mpr ⟨others, hothers, rfl⟩⟩

/-- A walk that fails has failed at one of its items. -/
theorem exists_of_mapM_error {error : ε} (hwalk : items.mapM step = .error error) :
    ∃ item ∈ items, step item = .error error := by
  induction items with
  | nil => cases hwalk
  | cons first items ih =>
      rw [List.mapM_cons] at hwalk
      rcases bind_eq_error_iff.mp hwalk with hfirst | ⟨value, -, hrest⟩
      · exact ⟨first, List.mem_cons_self, hfirst⟩
      · rcases bind_eq_error_iff.mp hrest with hothers | ⟨others, -, hpure⟩
        · obtain ⟨item, hmem, hitem⟩ := ih hothers
          exact ⟨item, List.mem_cons_of_mem first hmem, hitem⟩
        · cases hpure

end Walk

end HeapStore
