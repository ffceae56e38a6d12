import HeapStore.Bytes
import HeapStore.Disk.DiskError

/-!
# Contents of files

A file holds runs of bytes and holes between them.  A hole reads as zeros and takes no room, so a
file can be far longer than what was written to it.  `toBytes` is what a reader of the whole file
sees; the lemmas say what each operation does to it.
-/

namespace HeapStore

/-- A stretch of a file: bytes that were written, or a hole of so many zeros. -/
inductive Run where
  | bytes (written : Bytes)
  | hole (count : Nat)
  deriving DecidableEq, Inhabited

namespace Run

/-- Length of the stretch. -/
def size : Run → Nat
  | .bytes written => written.length
  | .hole count => count

/-- What a reader of the stretch sees. -/
def toBytes : Run → Bytes
  | .bytes written => written
  | .hole count => Bytes.zeros count

/-- The first `count` bytes of the stretch. -/
def take (count : Nat) : Run → Run
  | .bytes written => .bytes (written.take count)
  | .hole length => .hole (min count length)

/-- The stretch without its first `count` bytes. -/
def drop (count : Nat) : Run → Run
  | .bytes written => .bytes (written.drop count)
  | .hole length => .hole (length - count)

@[simp] theorem length_toBytes (run : Run) : run.toBytes.length = run.size := by
  cases run <;> simp [toBytes, size]

@[simp] theorem toBytes_take (count : Nat) (run : Run) :
    (run.take count).toBytes = run.toBytes.take count := by
  cases run <;> simp [take, toBytes, Bytes.zeros, List.take_replicate]

@[simp] theorem toBytes_drop (count : Nat) (run : Run) :
    (run.drop count).toBytes = run.toBytes.drop count := by
  cases run <;> simp [drop, toBytes, Bytes.zeros, List.drop_replicate]

end Run

/-- What a file holds. -/
structure Content where
  runs : List Run
  deriving DecidableEq, Inhabited

namespace Content

/-- A file with nothing in it. -/
def empty : Content :=
  ⟨[]⟩

/-- A file with these bytes. -/
def ofBytes (bytes : Bytes) : Content :=
  ⟨[.bytes bytes]⟩

/-- The length of the file. -/
def size (content : Content) : Nat :=
  content.runs.foldr (fun run size => run.size + size) 0

/-- All bytes of the file. -/
def toBytes (content : Content) : Bytes :=
  content.runs.flatMap Run.toBytes

/-- The first `count` bytes of some runs. -/
def takeRuns : (count : Nat) → List Run → List Run
  | 0, _ => []
  | _, [] => []
  | count, run :: rest =>
    if count ≤ run.size then [run.take count] else run :: takeRuns (count - run.size) rest

/-- Runs without their first `count` bytes. -/
def dropRuns : (count : Nat) → List Run → List Run
  | _, [] => []
  | count, run :: rest =>
    if count < run.size then run.drop count :: rest else dropRuns (count - run.size) rest

/-- The first `count` bytes of the file. -/
def take (count : Nat) (content : Content) : Content :=
  ⟨takeRuns count content.runs⟩

/-- The file without its first `count` bytes. -/
def drop (count : Nat) (content : Content) : Content :=
  ⟨dropRuns count content.runs⟩

/-- The `count` bytes from `offset` on, or fewer at the end. -/
def slice (offset count : Nat) (content : Content) : Bytes :=
  ((content.drop offset).take count).toBytes

/-- Writes bytes at the end of the file. -/
def append (content : Content) (bytes : Bytes) : Content :=
  ⟨content.runs ++ [.bytes bytes]⟩

/-- Cuts the file to `count` bytes, or extends it to them with a hole. -/
def resize (count : Nat) (content : Content) : Content :=
  if content.size < count then ⟨content.runs ++ [.hole (count - content.size)]⟩
  else content.take count

/-- Overwrites from `offset` on with `patch`; a gap after the end becomes a hole. -/
def splice (offset : Nat) (patch : Bytes) (content : Content) : Content :=
  ⟨(content.resize offset).runs ++ .bytes patch :: (content.drop (offset + patch.length)).runs⟩

/-! ## What a reader sees -/

@[simp] theorem toBytes_mk (runs : List Run) : toBytes ⟨runs⟩ = runs.flatMap Run.toBytes :=
  rfl

@[simp] theorem toBytes_empty : empty.toBytes = [] :=
  rfl

@[simp] theorem toBytes_ofBytes (bytes : Bytes) : (ofBytes bytes).toBytes = bytes := by
  simp [ofBytes, Run.toBytes]

theorem size_eq_length (content : Content) : content.size = content.toBytes.length := by
  obtain ⟨runs⟩ := content
  induction runs with
  | nil => rfl
  | cons run rest ih => simp_all [size]

theorem flatMap_takeRuns (count : Nat) (runs : List Run) :
    (takeRuns count runs).flatMap Run.toBytes = (runs.flatMap Run.toBytes).take count := by
  fun_induction takeRuns count runs with
  | case1 => simp
  | case2 => simp
  | case3 count run rest _ fits => simp [List.take_append, Nat.sub_eq_zero_of_le fits]
  | case4 count run rest _ exceeds ih =>
    simp only [List.flatMap_cons, ih, List.take_append, Run.length_toBytes]
    rw [List.take_of_length_le (l := run.toBytes) (by rw [Run.length_toBytes]; omega)]

theorem flatMap_dropRuns (count : Nat) (runs : List Run) :
    (dropRuns count runs).flatMap Run.toBytes = (runs.flatMap Run.toBytes).drop count := by
  fun_induction dropRuns count runs with
  | case1 => simp
  | case2 count run rest within =>
    simp [List.drop_append, Nat.sub_eq_zero_of_le (Nat.le_of_lt within)]
  | case3 count run rest beyond ih =>
    simp only [List.flatMap_cons, ih, List.drop_append, Run.length_toBytes]
    rw [List.drop_of_length_le (l := run.toBytes) (by rw [Run.length_toBytes]; omega)]
    simp

@[simp] theorem toBytes_take (count : Nat) (content : Content) :
    (content.take count).toBytes = content.toBytes.take count :=
  flatMap_takeRuns count content.runs

@[simp] theorem toBytes_drop (count : Nat) (content : Content) :
    (content.drop count).toBytes = content.toBytes.drop count :=
  flatMap_dropRuns count content.runs

theorem slice_eq (offset count : Nat) (content : Content) :
    content.slice offset count = Bytes.slice offset count content.toBytes := by
  simp [slice, Bytes.slice]

@[simp] theorem toBytes_append (content : Content) (bytes : Bytes) :
    (content.append bytes).toBytes = content.toBytes ++ bytes := by
  simp [append, toBytes, Run.toBytes]

@[simp] theorem toBytes_resize (count : Nat) (content : Content) :
    (content.resize count).toBytes = Bytes.resize count content.toBytes := by
  unfold resize
  split
  · rename_i short
    rw [size_eq_length] at short ⊢
    rw [Bytes.resize, List.take_of_length_le (Nat.le_of_lt short)]
    simp [toBytes, Run.toBytes]
  · rename_i long
    rw [size_eq_length] at long
    rw [toBytes_take, Bytes.resize, Nat.sub_eq_zero_of_le (Nat.le_of_not_lt long)]
    simp [Bytes.zeros]

@[simp] theorem toBytes_splice (offset : Nat) (patch : Bytes) (content : Content) :
    (content.splice offset patch).toBytes = Bytes.splice offset patch content.toBytes := by
  have before := toBytes_resize offset content
  have after := toBytes_drop (offset + patch.length) content
  simp only [toBytes] at before after
  simp [splice, Bytes.splice, before, after, Bytes.resize, Run.toBytes, toBytes]

theorem size_drop (count : Nat) (content : Content) :
    (content.drop count).size = content.size - count := by
  simp [size_eq_length]

/-! ## Limits of the system -/

/-- The largest position in a file. -/
def maxPosition : Nat :=
  9223372036854775807

/-- Writes at a position.  To write nothing changes nothing, but the position must exist. -/
def overwrite (offset : Nat) (patch : Bytes) (content : Content) : Except DiskError Content :=
  if maxPosition < offset + patch.length then .error .invalidArgument
  else if patch.isEmpty then .ok content
  else .ok (content.splice offset patch)

/-- Gives the file a new length. -/
def setSize (count : Nat) (content : Content) : Except DiskError Content :=
  if maxPosition < count then .error .sizeOutOfRange else .ok (content.resize count)

end Content

end HeapStore
