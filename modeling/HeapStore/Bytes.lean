/-!
# Byte strings

Byte strings are lists of bytes.  Numbers are stored most significant byte first in a fixed
number of bytes.  A file is changed by `splice`, which overwrites from an offset on and fills a
gap after the end with zeros, and by `resize`.
-/

namespace HeapStore

/-- A byte string. -/
abbrev Bytes := List UInt8

namespace Bytes

/-- The last `width` base-256 digits of a number, most significant first. -/
def ofNat : (width : Nat) → Nat → Bytes
  | 0, _ => []
  | width + 1, n => ofNat width (n / 256) ++ [UInt8.ofNat n]

/-- The number whose base-256 digits these are. -/
def toNat (bytes : Bytes) : Nat :=
  bytes.foldl (fun n byte => 256 * n + byte.toNat) 0

/-- So many zero bytes. -/
def zeros (count : Nat) : Bytes :=
  List.replicate count 0

/-- The `count` bytes from `offset` on, or fewer at the end. -/
def slice (offset count : Nat) (content : Bytes) : Bytes :=
  (content.drop offset).take count

/-- Overwrites from `offset` on with `patch`; a gap after the end is filled with zeros. -/
def splice (offset : Nat) (patch content : Bytes) : Bytes :=
  content.take offset ++ zeros (offset - content.length) ++ patch ++
    content.drop (offset + patch.length)

/-- Cuts or extends with zeros to exactly `count` bytes. -/
def resize (count : Nat) (content : Bytes) : Bytes :=
  content.take count ++ zeros (count - content.length)

@[simp] theorem length_ofNat (width n : Nat) : (ofNat width n).length = width := by
  induction width generalizing n with
  | zero => rfl
  | succ width ih => simp [ofNat, ih]

@[simp] theorem length_zeros (count : Nat) : (zeros count).length = count := by
  simp [zeros]

@[simp] theorem length_resize (count : Nat) (content : Bytes) :
    (resize count content).length = count := by
  simp [resize]
  omega

end Bytes

/-! ## Blocks of equal size -/

/-- Takes `count` blocks of `size` elements off the front and puts them behind `done`, which is
held in reverse. -/
def blocksOnto {α : Type} (size : Nat) : (count : Nat) → List α → List (List α) → List (List α)
  | 0, _, done => done.reverse
  | count + 1, rest, done => blocksOnto size count (rest.drop size) (rest.take size :: done)

/-- The first `count` blocks of `size` elements. -/
def blocks {α : Type} (size count : Nat) (data : List α) : List (List α) :=
  blocksOnto size count data []

theorem blocksOnto_eq {α : Type} (size count : Nat) (data : List α) (done : List (List α)) :
    blocksOnto size count data done = done.reverse ++ blocks size count data := by
  induction count generalizing data done with
  | zero => simp [blocks, blocksOnto]
  | succ count ih =>
    simp only [blocks, blocksOnto]
    rw [ih, ih (data.drop size) [data.take size]]
    simp

@[simp] theorem blocks_zero {α : Type} (size : Nat) (data : List α) : blocks size 0 data = [] :=
  rfl

theorem blocks_succ {α : Type} (size count : Nat) (data : List α) :
    blocks size (count + 1) data = data.take size :: blocks size count (data.drop size) := by
  rw [blocks, blocksOnto, blocksOnto_eq]
  rfl

@[simp] theorem length_blocks {α : Type} (size count : Nat) (data : List α) :
    (blocks size count data).length = count := by
  induction count generalizing data with
  | zero => rfl
  | succ count ih => simp [blocks_succ, ih]

end HeapStore
