import HeapStore.Text.Printable

/-!
# Quoted texts

A text quoted for a message stands between double quotes.  Quotes and backslashes are escaped,
the usual control characters have short escapes, and whatever else cannot be shown is written as
its number in hexadecimal.  An apostrophe stands as it is.
-/

namespace HeapStore.Text

/-- The escape of a character by its number. -/
def numberEscape (c : Char) : List Char :=
  ['\\', 'u', '\x7b'] ++ Nat.toDigits 16 c.toNat ++ ['\x7d']

/-- One character as it stands between the quotes. -/
def quoteChar (c : Char) : List Char :=
  match c with
  | '\x00' => ['\\', '0']
  | '\t' => ['\\', 't']
  | '\r' => ['\\', 'r']
  | '\n' => ['\\', 'n']
  | '\\' => ['\\', '\\']
  | '"' => ['\\', '"']
  | _ => if isPrintable c then [c] else numberEscape c

/-- A text between double quotes. -/
def quoted (s : String) : String :=
  String.ofList ('"' :: s.toList.flatMap quoteChar ++ ['"'])

end HeapStore.Text
