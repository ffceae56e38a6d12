import HeapStore.Address
import HeapStore.Sorting

/-!
# The order of pages

Pages and rows are ordered by their addresses.  The order of pages is total, so the order in which
pages are written depends only on which pages they are: `inOrder_perm` and `filter_inOrder`.
-/

namespace HeapStore

namespace PageAddress

theorem precedes_iff (a b : PageAddress) :
    a.precedes b = true ↔ a.table < b.table ∨ (a.table = b.table ∧ a.number ≤ b.number) := by
  have hcompare : ∀ x y : UInt32,
      Ord.compare x y = if x < y then .lt else if x = y then .eq else .gt := fun _ _ => rfl
  simp only [precedes, PageAddress.compare, Ordering.isLE_then_iff_or, hcompare]
  grind [Ordering.isLE]

theorem precedes_total (a b : PageAddress) : a.precedes b = true ∨ b.precedes a = true := by
  rw [precedes_iff, precedes_iff]
  grind

theorem precedes_trans (a b c : PageAddress) (hab : a.precedes b = true)
    (hbc : b.precedes c = true) : a.precedes c = true := by
  rw [precedes_iff] at hab hbc ⊢
  grind

theorem precedes_antisymm (a b : PageAddress) (hab : a.precedes b = true)
    (hba : b.precedes a = true) : a = b := by
  rw [precedes_iff] at hab hba
  obtain ⟨aTable, aNumber⟩ := a
  obtain ⟨bTable, bNumber⟩ := b
  simp only at hab hba
  grind

end PageAddress

/-- Rows of one table are ordered by page numbers, and on a page by slots. -/
theorem RecordAddress.compare_eq_lt_iff (id : TableId) (number other : UInt32) (slot next : Nat) :
    RecordAddress.compare ⟨⟨id, number⟩, slot⟩ ⟨⟨id, other⟩, next⟩ = .lt ↔
      number < other ∨ (number = other ∧ slot < next) := by
  have hcompare : ∀ x y : UInt32,
      Ord.compare x y = if x < y then .lt else if x = y then .eq else .gt := fun _ _ => rfl
  simp only [RecordAddress.compare, PageAddress.compare, Ordering.then_eq_lt,
    Ordering.then_eq_eq, hcompare, Nat.compare_eq_lt]
  grind

theorem sorted_inOrder (items : List PageAddress) :
    (inOrder PageAddress.precedes items).Pairwise fun a b => a.precedes b = true :=
  pairwise_inOrder _ PageAddress.precedes_total PageAddress.precedes_trans items

/-- Pages in order are in the only order that they have. -/
theorem eq_inOrder_of_perm {sorted items : List PageAddress} (hperm : sorted.Perm items)
    (hsorted : sorted.Pairwise fun a b => a.precedes b = true) :
    sorted = inOrder PageAddress.precedes items := by
  have hall := hperm.trans (perm_inOrder PageAddress.precedes items).symm
  exact hall.eq_of_pairwise (fun a b _ _ => PageAddress.precedes_antisymm a b) hsorted
    (sorted_inOrder items)

/-- The order of some pages depends only on which pages they are. -/
theorem inOrder_perm {a b : List PageAddress} (hperm : a.Perm b) :
    inOrder PageAddress.precedes a = inOrder PageAddress.precedes b :=
  eq_inOrder_of_perm ((perm_inOrder PageAddress.precedes a).trans hperm) (sorted_inOrder a)

/-- To leave pages out before or after ordering them is the same. -/
theorem filter_inOrder (keep : PageAddress → Bool) (items : List PageAddress) :
    (inOrder PageAddress.precedes items).filter keep
      = inOrder PageAddress.precedes (items.filter keep) :=
  eq_inOrder_of_perm ((perm_inOrder PageAddress.precedes items).filter keep)
    ((sorted_inOrder items).filter keep)

end HeapStore
