import HeapStore.Address
import HeapStore.Bytes

/-!
# Log records

A record says what a transaction did: it changed a page from one image to another, it committed,
or it aborted.  The stored form starts with a tag byte.  An image is stored as its length in four
bytes and its bytes; what follows a complete record is not looked at.
-/

namespace HeapStore

/-- What a transaction did. -/
inductive LogRecord where
  | update (page : PageAddress) (before after : Bytes)
  | commit
  | abort
  deriving DecidableEq, Inhabited

/-- An image with its length in front. -/
def encodeImage (image : Bytes) : Bytes :=
  Bytes.ofNat 4 image.length ++ image

/-- Takes an image with its length off the front. -/
def takeImage? (bytes : Bytes) : Option (Bytes × Bytes) :=
  if bytes.length < 4 then none
  else
    let length := Bytes.toNat (bytes.take 4)
    let rest := bytes.drop 4
    if rest.length < length then none else some (rest.take length, rest.drop length)

namespace LogRecord

/-- The stored form of a record. -/
def encode : LogRecord → Bytes
  | .update page before after =>
    1 :: Bytes.ofNat 4 page.table.toNat ++ Bytes.ofNat 4 page.number.toNat ++
      encodeImage before ++ encodeImage after
  | .commit => [2]
  | .abort => [3]

/-- The record whose stored form `bytes` starts with. -/
def decode? : Bytes → Option LogRecord
  | [] => none
  | tag :: rest =>
    if tag = 1 then
      if rest.length < 12 then none
      else do
        let table := UInt32.ofNat (Bytes.toNat (rest.take 4))
        let number := UInt32.ofNat (Bytes.toNat (Bytes.slice 4 4 rest))
        let (before, rest) ← takeImage? (rest.drop 8)
        let (after, _) ← takeImage? rest
        return .update ⟨table, number⟩ before after
    else if tag = 2 then some .commit
    else if tag = 3 then some .abort
    else none

end LogRecord

end HeapStore
