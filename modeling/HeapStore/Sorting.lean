/-!
# Sorting

A list is put in order by inserting its elements one after the other, last first.  Elements that
are alike keep the order in which they stood.  `perm_inOrder` says that nothing is lost or added,
`pairwise_inOrder` that the result is in order.
-/

namespace HeapStore

/-- Puts `a` in front of the first element that it may stand before. -/
def insertInOrder {α : Type} (le : α → α → Bool) (a : α) : List α → List α
  | [] => [a]
  | b :: rest => if le a b then a :: b :: rest else b :: insertInOrder le a rest

/-- The elements in the order that `le` says. -/
def inOrder {α : Type} (le : α → α → Bool) (items : List α) : List α :=
  items.foldr (insertInOrder le) []

section

variable {α : Type} (le : α → α → Bool)

theorem perm_insertInOrder (a : α) (items : List α) :
    (insertInOrder le a items).Perm (a :: items) := by
  induction items with
  | nil => exact List.Perm.refl _
  | cons b rest ih =>
    simp only [insertInOrder]
    split
    · exact List.Perm.refl _
    · exact (ih.cons b).trans (List.Perm.swap a b rest)

theorem perm_inOrder (items : List α) : (inOrder le items).Perm items := by
  induction items with
  | nil => exact List.Perm.refl _
  | cons a rest ih => exact (perm_insertInOrder le a (inOrder le rest)).trans (ih.cons a)

theorem pairwise_insertInOrder (total : ∀ a b, le a b = true ∨ le b a = true)
    (trans : ∀ a b c, le a b = true → le b c = true → le a c = true) (a : α) (items : List α)
    (sorted : items.Pairwise fun x y => le x y = true) :
    (insertInOrder le a items).Pairwise fun x y => le x y = true := by
  induction items with
  | nil => simp [insertInOrder]
  | cons b rest ih =>
    obtain ⟨below, tail⟩ := List.pairwise_cons.mp sorted
    simp only [insertInOrder]
    split
    · rename_i first
      refine List.pairwise_cons.mpr ⟨?_, sorted⟩
      intro x member
      rcases List.mem_cons.mp member with rfl | member
      · exact first
      · exact trans a b x first (below x member)
    · rename_i later
      refine List.pairwise_cons.mpr ⟨?_, ih tail⟩
      intro x member
      rcases List.mem_cons.mp ((perm_insertInOrder le a rest).mem_iff.mp member) with rfl | member
      · exact (total b x).resolve_right later
      · exact below x member

theorem pairwise_inOrder (total : ∀ a b, le a b = true ∨ le b a = true)
    (trans : ∀ a b c, le a b = true → le b c = true → le a c = true) (items : List α) :
    (inOrder le items).Pairwise fun x y => le x y = true := by
  induction items with
  | nil => exact List.Pairwise.nil
  | cons a rest ih => exact pairwise_insertInOrder le total trans a (inOrder le rest) ih

end

end HeapStore
