import Mathlib.Algebra.Ring.Nat
import Mathlib.Data.List.Induction
import HeapStore.Bitmap

/-!
# Laws of byte strings

Numbers of fixed width and their bytes are read back from each other, a slice of what was just
spliced in is the patch, and a splice leaves every range before and behind the patch alone.
`blocks_flatMap` takes a row of pieces of equal size apart again, and `unpack_pack` does the same
for bitmaps of whole bytes.
-/

namespace HeapStore

namespace Bytes

theorem toNat_concat (front : Bytes) (byte : UInt8) :
    toNat (front ++ [byte]) = 256 * toNat front + byte.toNat := by
  simp [toNat]

/-- A number below `256 ^ width` is read back from its bytes. -/
theorem toNat_ofNat (width n : Nat) (hn : n < 256 ^ width) : toNat (ofNat width n) = n := by
  induction width generalizing n with
  | zero =>
      have hzero : n = 0 := by simpa using hn
      simp [ofNat, toNat, hzero]
  | succ width ih =>
      have hquot : n / 256 < 256 ^ width := by
        apply Nat.div_lt_of_lt_mul
        rw [Nat.pow_succ] at hn
        omega
      rw [ofNat, toNat_concat, ih _ hquot]
      have hlast : (UInt8.ofNat n).toNat = n % 256 := by simp
      omega

theorem toNat_lt (bytes : Bytes) : toNat bytes < 256 ^ bytes.length := by
  induction bytes using List.reverseRecOn with
  | nil => simp [toNat]
  | append_singleton front byte ih =>
      have hbyte := byte.toNat_lt
      rw [toNat_concat, List.length_append, List.length_singleton, Nat.pow_succ]
      omega

/-- Bytes are those of the number that they are read as. -/
theorem ofNat_toNat (bytes : Bytes) : ofNat bytes.length (toNat bytes) = bytes := by
  induction bytes using List.reverseRecOn with
  | nil => rfl
  | append_singleton front byte ih =>
      have hbyte := byte.toNat_lt
      have hquotient : (256 * toNat front + byte.toNat) / 256 = toNat front := by omega
      have hlast : UInt8.ofNat (256 * toNat front + byte.toNat) = byte := by
        apply UInt8.toNat_inj.mp
        simp only [UInt8.toNat_ofNat']
        omega
      rw [List.length_append, List.length_singleton, toNat_concat, ofNat, hquotient, ih, hlast]

/-! ## Splices -/

theorem length_splice (offset : Nat) (patch content : Bytes) :
    (splice offset patch content).length = max content.length (offset + patch.length) := by
  simp only [splice, List.length_append, List.length_take, length_zeros, List.length_drop]
  omega

/-- A splice within the content or at its end, without the filling. -/
theorem splice_of_le {offset : Nat} {patch content : Bytes} (hle : offset ≤ content.length) :
    splice offset patch content =
      content.take offset ++ (patch ++ content.drop (offset + patch.length)) := by
  have hgap : offset - content.length = 0 := by omega
  simp [splice, hgap, zeros]

theorem slice_splice_same {offset : Nat} {patch content : Bytes}
    (hle : offset ≤ content.length) :
    slice offset patch.length (splice offset patch content) = patch := by
  have hfront : (content.take offset).length = offset := by simp [hle]
  rw [splice_of_le hle, slice, List.drop_append_of_le_length (by omega)]
  rw [List.drop_of_length_le (by omega), List.nil_append]
  exact List.take_left' rfl

theorem slice_splice_before {offset start count : Nat} {patch content : Bytes}
    (hle : offset ≤ content.length) (hbefore : start + count ≤ offset) :
    slice start count (splice offset patch content) = slice start count content := by
  have hfront : (content.take offset).length = offset := by simp [hle]
  rw [splice_of_le hle, slice, List.drop_append_of_le_length (by omega)]
  rw [List.take_append_of_le_length (by simp; omega)]
  rw [slice, List.drop_take, List.take_take]
  congr 1
  omega

theorem slice_splice_behind {offset start count : Nat} {patch content : Bytes}
    (hle : offset ≤ content.length) (hbehind : offset + patch.length ≤ start) :
    slice start count (splice offset patch content) = slice start count content := by
  have hfront : (content.take offset).length = offset := by simp [hle]
  have hskip : start - (content.take offset).length - patch.length
      = start - (offset + patch.length) := by omega
  rw [splice_of_le hle, slice, List.drop_append, List.drop_append, hskip, List.drop_drop]
  rw [List.drop_of_length_le (by omega), List.drop_of_length_le (by omega)]
  rw [List.nil_append, List.nil_append, slice]
  congr 2
  omega

/-- A splice of bytes that already stand there changes nothing. -/
theorem splice_of_slice_eq {offset : Nat} {patch content : Bytes}
    (hslice : slice offset patch.length content = patch) (hle : offset ≤ content.length) :
    splice offset patch content = content := by
  have hmiddle : patch ++ (content.drop offset).drop patch.length = content.drop offset := by
    calc patch ++ (content.drop offset).drop patch.length
        = (content.drop offset).take patch.length ++ (content.drop offset).drop patch.length := by
          rw [slice] at hslice
          rw [hslice]
      _ = content.drop offset := List.take_append_drop _ _
  rw [splice_of_le hle, ← List.drop_drop, hmiddle, List.take_append_drop]

end Bytes

/-! ## Pieces of equal size -/

/-- Pieces of equal size that stand one behind the other are the blocks of that size. -/
theorem blocks_flatMap {α β : Type} (size : Nat) (pieces : List α) (write : α → List β)
    (rest : List β) (hsize : ∀ a ∈ pieces, (write a).length = size) :
    blocks size pieces.length (pieces.flatMap write ++ rest) = pieces.map write := by
  induction pieces with
  | nil => rfl
  | cons a pieces ih =>
      have hhead : (write a).length = size := hsize a List.mem_cons_self
      have htail := ih fun b hb => hsize b (List.mem_cons_of_mem a hb)
      rw [List.length_cons, blocks_succ, List.flatMap_cons, List.append_assoc, List.map_cons]
      rw [List.take_left' hhead, List.drop_left' hhead, htail]

/-- As many elements as there are in one piece, for each piece. -/
theorem length_flatMap_of_forall {α β : Type} {size : Nat} {pieces : List α} {write : α → List β}
    (hsize : ∀ piece ∈ pieces, (write piece).length = size) :
    (pieces.flatMap write).length = pieces.length * size := by
  induction pieces with
  | nil => simp
  | cons piece pieces ih =>
      rw [List.flatMap_cons, List.length_append, hsize piece List.mem_cons_self,
        ih fun later hlater => hsize later (List.mem_cons_of_mem _ hlater), List.length_cons,
        Nat.add_one_mul, Nat.add_comm]

namespace Bitmap

theorem flags_ofFlags (bits : List Bool) (hlength : bits.length = 8) :
    flags (ofFlags bits) = bits := by
  have hevery : ∀ a b c d e f g h : Bool,
      flags (ofFlags [a, b, c, d, e, f, g, h]) = [a, b, c, d, e, f, g, h] := by
    decide +kernel
  match bits, hlength with
  | [a, b, c, d, e, f, g, h], _ => exact hevery a b c d e f g h

/-- Flags that fill whole bytes are read back from them. -/
theorem unpack_pack (bits : List Bool) (count : Nat) (hlength : bits.length = 8 * count) :
    unpack (pack bits) = bits := by
  have hbytes : (bits.length + 7) / 8 = count := by omega
  rw [pack, hbytes]
  clear hbytes
  induction count generalizing bits with
  | zero =>
      have hnil : bits = [] := List.length_eq_zero_iff.mp hlength
      subst hnil
      rfl
  | succ count ih =>
      have hfirst : (bits.take 8).length = 8 := by simp; omega
      have hrest : (bits.drop 8).length = 8 * count := by simp; omega
      rw [blocks_succ, List.map_cons, unpack, List.flatMap_cons, flags_ofFlags _ hfirst]
      have htail := ih (bits.drop 8) hrest
      rw [unpack] at htail
      rw [htail, List.take_append_drop]

end Bitmap

end HeapStore
