import HeapStore.Store.Basic

/-!
# Performing actions

What `Action.perform` gives for each of the ways in which actions are put together.  A failure ends
an action and keeps the store as it was then.
-/

namespace HeapStore

namespace Action

variable {α β : Type}

@[simp] theorem perform_pure (a : α) (store : Store) :
    (pure a : Action α).perform store = (.ok a, store) := rfl

@[simp] theorem perform_throw (error : StoreError) (store : Store) :
    (throw error : Action α).perform store = (.error error, store) := rfl

@[simp] theorem perform_get (store : Store) :
    (get : Action Store).perform store = (.ok store, store) := rfl

@[simp] theorem perform_set (other store : Store) :
    (set other : Action Unit).perform store = (.ok (), other) := rfl

@[simp] theorem perform_modify (change : Store → Store) (store : Store) :
    (modify change : Action Unit).perform store = (.ok (), change store) := rfl

@[simp] theorem perform_ofExcept (result : Except StoreError α) (store : Store) :
    (MonadExcept.ofExcept result : Action α).perform store = (result, store) := by
  cases result with
  | error error => rfl
  | ok a => rfl

theorem perform_bind (action : Action α) (next : α → Action β) (store : Store) :
    (action >>= next).perform store =
      match action.perform store with
      | (.ok a, after) => (next a).perform after
      | (.error error, after) => (.error error, after) := by
  show (ExceptT.run (action >>= next)).run store = _
  simp only [ExceptT.run_bind, StateT.run_bind, Action.perform]
  rcases (ExceptT.run action).run store with ⟨result, after⟩
  cases result with
  | error error => rfl
  | ok a => rfl

theorem perform_tryCatch (action : Action α) (handle : StoreError → Action α) (store : Store) :
    (tryCatch action handle).perform store =
      match action.perform store with
      | (.ok a, after) => (.ok a, after)
      | (.error error, after) => (handle error).perform after := by
  show (ExceptT.run (tryCatch action handle)).run store = _
  simp only [ExceptT.run_tryCatch, StateT.run_bind, Action.perform]
  rcases (ExceptT.run action).run store with ⟨result, after⟩
  cases result with
  | error error => rfl
  | ok a => rfl

theorem perform_map (f : α → β) (action : Action α) (store : Store) :
    (f <$> action).perform store =
      ((action.perform store).1.map f, (action.perform store).2) := by
  show (ExceptT.run (f <$> action)).run store = _
  simp only [ExceptT.run_map, StateT.run_map, Action.perform]
  rcases (ExceptT.run action).run store with ⟨result, after⟩
  cases result with
  | error error => rfl
  | ok a => rfl

theorem perform_seqRight_pure (action : Action α) (b : β) (store : Store) :
    (action *> pure b).perform store =
      ((action.perform store).1.map fun _ => b, (action.perform store).2) := by
  show (action >>= fun _ => pure b).perform store = _
  rw [perform_bind]
  rcases action.perform store with ⟨result, after⟩
  cases result with
  | error error => rfl
  | ok a => rfl

end Action

end HeapStore
