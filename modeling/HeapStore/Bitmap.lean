import HeapStore.Bytes

/-!
# Bitmaps

Flags packed into bytes, eight to a byte, the first flag in the least significant bit.
-/

namespace HeapStore.Bitmap

/-- The eight flags of a byte, least significant first. -/
def flags (byte : UInt8) : List Bool :=
  (List.range 8).map byte.toNat.testBit

/-- The byte with these flags. -/
def ofFlags (bits : List Bool) : UInt8 :=
  UInt8.ofNat (bits.foldr (fun bit n => bit.toNat + 2 * n) 0)

/-- All flags of a byte string, in order. -/
def unpack (bytes : Bytes) : List Bool :=
  bytes.flatMap flags

/-- The flags in as few bytes as hold them; spare bits are clear. -/
def pack (bits : List Bool) : Bytes :=
  (blocks 8 ((bits.length + 7) / 8) bits).map ofFlags

@[simp] theorem length_flags (byte : UInt8) : (flags byte).length = 8 := by
  simp [flags]

theorem ofFlags_flags (byte : UInt8) : ofFlags (flags byte) = byte := by
  have every : ∀ n : Fin 256, ofFlags (flags (UInt8.ofNat n.val)) = UInt8.ofNat n.val := by
    decide +kernel
  simpa using every ⟨byte.toNat, byte.toNat_lt⟩

theorem length_unpack (bytes : Bytes) : (unpack bytes).length = 8 * bytes.length := by
  induction bytes with
  | nil => rfl
  | cons byte rest ih =>
    simp only [unpack, List.flatMap_cons, List.length_append, length_flags, List.length_cons] at ih ⊢
    omega

@[simp] theorem length_pack (bits : List Bool) : (pack bits).length = (bits.length + 7) / 8 := by
  simp [pack]

/-- Packing the flags of a byte string gives it back. -/
theorem pack_unpack (bytes : Bytes) : pack (unpack bytes) = bytes := by
  unfold pack
  rw [length_unpack]
  have count : (8 * bytes.length + 7) / 8 = bytes.length := by omega
  rw [count]
  induction bytes with
  | nil => rfl
  | cons byte rest ih =>
    have first : unpack (byte :: rest) = flags byte ++ unpack rest := by simp [unpack]
    rw [List.length_cons, blocks_succ, first]
    have head : (flags byte ++ unpack rest).take 8 = flags byte := by
      rw [List.take_append_of_le_length (by simp), List.take_of_length_le (by simp)]
    have tail : (flags byte ++ unpack rest).drop 8 = unpack rest := by
      rw [List.drop_append_of_le_length (by simp), List.drop_of_length_le (by simp), List.nil_append]
    rw [head, tail, List.map_cons, ofFlags_flags, ih (by omega)]

end HeapStore.Bitmap
