import HeapStore.Proofs.Bytes

/-!
# Reading along bytes

A reader takes what it needs off the front of the bytes and leaves the rest.  Where it asks for
more bytes than are left the answer is an `Overrun`; a reader that looks before it asks never gives
one.
-/

namespace HeapStore

/-- Four bytes are the digits of the number of 32 bits that is read from them. -/
theorem Bytes.ofNat_toNat_four {digits : Bytes} (hdigits : digits.length = 4) :
    (UInt32.ofNat (toNat digits)).toNat = toNat digits ∧
      ofNat 4 (UInt32.ofNat (toNat digits)).toNat = digits := by
  have hsmall := toNat_lt digits
  have hbytes := ofNat_toNat digits
  rw [hdigits] at hsmall hbytes
  have hnumber : (UInt32.ofNat (toNat digits)).toNat = toNat digits :=
    UInt32.toNat_ofNat_of_lt' hsmall
  exact ⟨hnumber, by rw [hnumber, hbytes]⟩

/-- More bytes were asked for than were left. -/
structure Overrun where
  wanted : Nat
  left : Nat
  deriving DecidableEq, Inhabited

/-- Takes exactly so many bytes off the front. -/
def takeExactly (count : Nat) (bytes : Bytes) : Except Overrun (Bytes × Bytes) :=
  if bytes.length < count then .error ⟨count, bytes.length⟩
  else .ok (bytes.take count, bytes.drop count)

/-- Takes a number of four bytes off the front. -/
def readNumber (bytes : Bytes) : Except Overrun (UInt32 × Bytes) := do
  let (digits, rest) ← takeExactly 4 bytes
  return (UInt32.ofNat (Bytes.toNat digits), rest)

section

variable {bytes : Bytes}

theorem takeExactly_of_le {count : Nat} (hinside : count ≤ bytes.length) :
    takeExactly count bytes = .ok (bytes.take count, bytes.drop count) :=
  if_neg (Nat.not_lt.mpr hinside)

theorem readNumber_of_le (hinside : 4 ≤ bytes.length) :
    readNumber bytes = .ok (UInt32.ofNat (Bytes.toNat (bytes.take 4)), bytes.drop 4) := by
  rw [readNumber, takeExactly_of_le hinside]
  rfl

end

end HeapStore
