/-!
# Addresses

A page is addressed by its table and its number, a row by its page and its slot.  Addresses are
ordered by table, then number, then slot.
-/

namespace HeapStore

/-- The identity of a table, a function of where its file lies. -/
abbrev TableId := UInt32

/-- The identity of a transaction. -/
abbrev TransactionId := UInt64

/-- One page of one table. -/
structure PageAddress where
  table : TableId
  number : UInt32
  deriving DecidableEq, Inhabited, Repr

namespace PageAddress

/-- Lexicographic order: the table decides, then the number. -/
def compare (a b : PageAddress) : Ordering :=
  (Ord.compare a.table b.table).then (Ord.compare a.number b.number)

/-- The page comes before the other or is the same. -/
def precedes (a b : PageAddress) : Bool :=
  (a.compare b).isLE

/-- Written `table:number`. -/
def render (a : PageAddress) : String :=
  s!"{a.table}:{a.number}"

end PageAddress

/-- The place of one row: a page and a slot on it. -/
structure RecordAddress where
  page : PageAddress
  slot : Nat
  deriving DecidableEq, Inhabited, Repr

namespace RecordAddress

/-- Lexicographic order: the page decides, then the slot. -/
def compare (a b : RecordAddress) : Ordering :=
  (a.page.compare b.page).then (Ord.compare a.slot b.slot)

/-- Written `table:number#slot`. -/
def render (a : RecordAddress) : String :=
  s!"{a.page.render}#{a.slot}"

end RecordAddress

end HeapStore
