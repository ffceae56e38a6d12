import HeapStore.Bytes
import HeapStore.Text.Utf8

/-!
# Fields

A field is a 32-bit integer or a text.  Its stored form has a width that depends on its type
alone: four bytes for an integer; for a text its length in four bytes, then a cell of 128 bytes
that holds its UTF-8 form and zeros.  A longer text is cut to the longest run of whole characters
that fits the cell.
-/

namespace HeapStore

/-- The type of a column. -/
inductive FieldType where
  | int
  | string
  deriving DecidableEq, Inhabited, Repr

/-- The value of a field. -/
inductive Field where
  | int (value : Int32)
  | string (text : String)
  deriving DecidableEq, Inhabited

/-- Bytes set aside for the content of a text. -/
def textCapacity : Nat := 128

namespace FieldType

/-- The word for the type. -/
def render : FieldType → String
  | .int => "int"
  | .string => "string"

/-- Bytes of a stored field. -/
def width : FieldType → Nat
  | .int => 4
  | .string => 4 + textCapacity

end FieldType

/-- The longest run of whole characters from the front that takes at most `room` bytes. -/
def fittingChars : (room : Nat) → List Char → List Char
  | _, [] => []
  | room, c :: rest =>
    if c.utf8Size ≤ room then c :: fittingChars (room - c.utf8Size) rest else []

/-- The text that a cell holds for `s`: all of it if it fits, else as many characters as do. -/
def storedText (s : String) : String :=
  String.ofList (fittingChars textCapacity s.toList)

namespace Field

/-- A text field, cut to what a cell holds. -/
def ofText (s : String) : Field :=
  .string (storedText s)

/-- The type of the value. -/
def type : Field → FieldType
  | .int _ => .int
  | .string _ => .string

/-- The value with its text, if it is one, cut to what a cell holds. -/
def stored : Field → Field
  | .int value => .int value
  | .string text => ofText text

/-- The field as text. -/
def render : Field → String
  | .int value => toString value.toInt
  | .string text => text

/-- The stored form, as wide as the type says. -/
def encode : Field → Bytes
  | .int value => Bytes.ofNat 4 value.toUInt32.toNat
  | .string text =>
    let content := Text.utf8 (storedText text)
    Bytes.ofNat 4 content.length ++ content ++ Bytes.zeros (textCapacity - content.length)

/-- The field of type `type` that `cell` stores.  A text whose length exceeds the cell or whose
content is not UTF-8 is none. -/
def decode? (type : FieldType) (cell : Bytes) : Option Field :=
  match type with
  | .int => some (.int (UInt32.ofNat (Bytes.toNat (cell.take 4))).toInt32)
  | .string =>
    let length := Bytes.toNat (cell.take 4)
    if textCapacity < length then none
    else (Text.ofUtf8? (Bytes.slice 4 length cell)).map .string

end Field

end HeapStore
