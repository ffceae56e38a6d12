import Mathlib.Data.Nat.Bitwise
import HeapStore.Proofs.Bytes

/-!
# Single bits of a bitmap

`Bitmap.isSet` looks at one bit of a byte string and `Bitmap.mark` changes one bit by a mask,
without unpacking the rest.  The bits are those that `Bitmap.unpack` lists, marking a bit changes
this bit only (`isSet_mark`), and byte strings of one length with the same bits are equal.
-/

namespace HeapStore.Bitmap

/-- The bit at an index: eight bits to a byte, the first one in the least significant place. -/
def isSet (bytes : Bytes) (index : Nat) : Bool :=
  (bytes.getD (index / 8) 0).toNat.testBit (index % 8)

/-- The byte in which only this bit is set. -/
def mask (place : Nat) : UInt8 :=
  1 <<< UInt8.ofNat place

/-- Sets or clears the bit at an index. -/
def mark (bytes : Bytes) (index : Nat) (bit : Bool) : Bytes :=
  bytes.modify (index / 8) fun byte =>
    if bit then byte ||| mask (index % 8) else byte &&& ~~~mask (index % 8)

variable {bytes other : Bytes} {index : Nat}

/-! ## Looking -/

theorem isSet_cons_of_lt (byte : UInt8) (bytes : Bytes) (hindex : index < 8) :
    isSet (byte :: bytes) index = byte.toNat.testBit index := by
  have hfirst : index / 8 = 0 := by omega
  have hplace : index % 8 = index := by omega
  simp [isSet, hfirst, hplace]

theorem isSet_cons_add (byte : UInt8) (bytes : Bytes) (index : Nat) :
    isSet (byte :: bytes) (index + 8) = isSet bytes index := by
  have hnext : (index + 8) / 8 = index / 8 + 1 := by omega
  simp [isSet, hnext]

/-- The bits of a front of the bytes are those of the bytes. -/
theorem isSet_take {count : Nat} (hindex : index < 8 * count) :
    isSet (bytes.take count) index = isSet bytes index := by
  have hfront : index / 8 < count := by omega
  simp [isSet, List.getD_eq_getElem?_getD, hfront]

/-- The bits are listed one after the other. -/
theorem getElem?_unpack (hindex : index < 8 * bytes.length) :
    (unpack bytes)[index]? = some (isSet bytes index) := by
  induction bytes generalizing index with
  | nil => exact absurd hindex (by simp)
  | cons byte bytes ih =>
      rw [unpack, List.flatMap_cons]
      by_cases hfirst : index < 8
      · rw [List.getElem?_append_left (by simpa using hfirst), isSet_cons_of_lt byte bytes hfirst]
        simp [flags, hfirst]
      · obtain ⟨later, rfl⟩ := Nat.exists_eq_add_of_le' (Nat.not_lt.mp hfirst)
        rw [List.getElem?_append_right (by simp), isSet_cons_add, length_flags,
          Nat.add_sub_cancel]
        exact ih (by rw [List.length_cons] at hindex; omega)

/-- Bytes are told apart by their bits. -/
theorem eq_of_isSet (hlength : bytes.length = other.length)
    (hbits : ∀ index < 8 * bytes.length, isSet bytes index = isSet other index) :
    bytes = other := by
  have hunpack : unpack bytes = unpack other := by
    apply List.ext_getElem?
    intro index
    by_cases hindex : index < 8 * bytes.length
    · rw [getElem?_unpack hindex, getElem?_unpack (hlength ▸ hindex), hbits index hindex]
    · rw [List.getElem?_eq_none (by rw [length_unpack]; omega),
        List.getElem?_eq_none (by rw [length_unpack, ← hlength]; omega)]
  rw [← pack_unpack bytes, hunpack, pack_unpack]

/-- The bits of packed flags are the flags. -/
theorem isSet_pack {bits : List Bool} {count : Nat} (hlength : bits.length = 8 * count)
    (hindex : index < bits.length) : isSet (pack bits) index = bits[index] := by
  have hlist : (unpack (pack bits))[index]? = some (isSet (pack bits) index) := by
    apply getElem?_unpack
    rw [length_pack]
    omega
  rw [unpack_pack bits count hlength, List.getElem?_eq_getElem hindex] at hlist
  exact (Option.some.inj hlist).symm

/-! ## Changing -/

@[simp] theorem length_mark (bytes : Bytes) (index : Nat) (bit : Bool) :
    (mark bytes index bit).length = bytes.length := by
  simp [mark]

theorem testBit_mask {place : Nat} (hplace : place < 8) (other : Nat) :
    (mask place).toNat.testBit other = decide (place = other) := by
  have hvalue : ∀ place : Fin 8, (mask place).toNat = 2 ^ place.val := by decide
  rw [hvalue ⟨place, hplace⟩, Nat.testBit_two_pow]

theorem testBit_not_mask {place other : Nat} (hplace : place < 8) (hother : other < 8) :
    (~~~mask place).toNat.testBit other = decide (place ≠ other) := by
  have hvalue : ∀ place other : Fin 8,
      (~~~mask place).toNat.testBit other = decide (place.val ≠ other.val) := by decide
  exact hvalue ⟨place, hplace⟩ ⟨other, hother⟩

/-- The mask changes the bit that it is made for and no other. -/
theorem testBit_masked (byte : UInt8) (bit : Bool) {place other : Nat} (hplace : place < 8)
    (hother : other < 8) :
    (if bit then byte ||| mask place else byte &&& ~~~mask place).toNat.testBit other =
      if other = place then bit else byte.toNat.testBit other := by
  cases bit with
  | true =>
      rw [if_pos rfl, UInt8.toNat_or, Nat.testBit_or, testBit_mask hplace]
      by_cases hsame : other = place
      · simp [hsame]
      · simp [hsame, Ne.symm hsame]
  | false =>
      rw [if_neg Bool.false_ne_true, UInt8.toNat_and, Nat.testBit_and,
        testBit_not_mask hplace hother]
      by_cases hsame : other = place
      · simp [hsame]
      · simp [hsame, Ne.symm hsame]

/-- A bit that is marked has the new value, and every other bit its old one. -/
theorem isSet_mark {bit : Bool} (hindex : index < 8 * bytes.length) (other : Nat) :
    isSet (mark bytes index bit) other = if other = index then bit else isSet bytes other := by
  have hinside : index / 8 < bytes.length := by omega
  by_cases hbyte : index / 8 = other / 8
  · have hplaces : other = index ↔ other % 8 = index % 8 := by omega
    have hmarked : (mark bytes index bit).getD (other / 8) 0 =
        if bit then bytes[index / 8] ||| mask (index % 8)
          else bytes[index / 8] &&& ~~~mask (index % 8) := by
      rw [mark, List.getD_eq_getElem?_getD, ← hbyte, List.getElem?_modify_eq,
        List.getElem?_eq_getElem hinside]
      rfl
    have hbefore : bytes.getD (other / 8) 0 = bytes[index / 8] := by
      rw [← hbyte, List.getD_eq_getElem?_getD, List.getElem?_eq_getElem hinside]
      rfl
    simp only [isSet, hmarked, hbefore, hplaces]
    exact testBit_masked _ bit (Nat.mod_lt _ (by decide)) (Nat.mod_lt _ (by decide))
  · have hother : other ≠ index := fun hsame => hbyte (by rw [hsame])
    rw [if_neg hother, isSet, isSet, mark, List.getD_eq_getElem?_getD,
      List.getElem?_modify_ne _ _ hbyte, ← List.getD_eq_getElem?_getD]

/-- Marking a packed flag packs the changed flags. -/
theorem mark_pack {bits : List Bool} {count : Nat} (hlength : bits.length = 8 * count)
    (hindex : index < bits.length) (bit : Bool) :
    mark (pack bits) index bit = pack (bits.set index bit) := by
  have hset : (bits.set index bit).length = 8 * count := by rw [List.length_set, hlength]
  have hbytes : (pack bits).length = count := by
    rw [length_pack]
    omega
  apply eq_of_isSet
  · rw [length_mark, length_pack, length_pack, List.length_set]
  · intro place hplace
    rw [length_mark, hbytes] at hplace
    rw [isSet_mark (by omega), isSet_pack hset (by omega), isSet_pack hlength (by omega),
      List.getElem_set]
    simp only [eq_comm]

end HeapStore.Bitmap
