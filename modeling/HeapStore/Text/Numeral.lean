/-!
# Decimal numerals

A numeral is a plus sign, if there is one, and decimal digits, at least one.  Leading zeros count
for nothing; a value at or above the limit is no numeral, and neither is anything with a minus.
-/

namespace HeapStore.Text

/-- The value of a digit. -/
def digitValue? (c : Char) : Option Nat :=
  if '0' ≤ c && c ≤ '9' then some (c.toNat - '0'.toNat) else none

/-- Reads further digits after a number, as long as the number stays below `limit`. -/
def readDigits (limit : Nat) : Nat → List Char → Option Nat
  | n, [] => some n
  | n, c :: rest =>
    match digitValue? c with
    | some d => if 10 * n + d < limit then readDigits limit (10 * n + d) rest else none
    | none => none

/-- The number below `limit` that the whole text denotes. -/
def readNumeral (limit : Nat) : List Char → Option Nat
  | [] => none
  | ['+'] => none
  | '+' :: rest => readDigits limit 0 rest
  | cs => readDigits limit 0 cs

end HeapStore.Text
