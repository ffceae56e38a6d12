import HeapStore.Error
import HeapStore.Schema
import HeapStore.Text.Blank
import HeapStore.Text.LowerCase

/-!
# Catalog lines

A catalog text defines one table a line: a name, and in parentheses the columns with commas
between them.  A column is a name, a type and, for the primary key, the word `pk`.  The columns
stand between the first opening and the last closing parenthesis of the line.
-/

namespace HeapStore

/-- What a catalog line says about a table. -/
structure TableDefinition where
  name : String
  schema : Schema
  primaryKey : Option String
  deriving DecidableEq, Inhabited

namespace CatalogLine

/-- What stands before the first opening and between it and the last closing parenthesis. -/
def split? (line : List Char) : Option (List Char × List Char) :=
  match line.dropWhile (· ≠ '(') with
  | [] => none
  | _ :: inner =>
    match inner.reverse.dropWhile (· ≠ ')') with
    | [] => none
    | _ :: columns => some (line.takeWhile (· ≠ '('), columns.reverse)

/-- The type that a word stands for, whatever its case. -/
def readType (line : String) (word : List Char) : Except StoreError FieldType :=
  let type := String.ofList (Text.lower word)
  if type = "int" then .ok .int
  else if type = "string" then .ok .string
  else .error (.catalog (.unknownType type line))

/-- Reads one column; the flag says that it is the primary key. -/
def readColumn (line : String) (text : List Char) : Except StoreError (Column × Bool) :=
  match Text.words text with
  | [name, type] => do
    let type ← readType line type
    return (⟨type, String.ofList name⟩, false)
  | [name, type, mark] => do
    let type ← readType line type
    if mark = ['p', 'k'] then return (⟨type, String.ofList name⟩, true)
    else throw (.catalog (.unknownMark (String.ofList mark) line))
  | _ => throw (.catalog (.invalidEntry line))

/-- Reads a line that has no blanks at its ends.  Of several primary keys the last one counts. -/
def parse (line : String) : Except StoreError TableDefinition :=
  match split? line.toList with
  | none => .error (.catalog (.invalidEntry line))
  | some (before, inner) =>
    let name := Text.trim before
    if name = [] then .error (.catalog (.invalidEntry line))
    else do
      let columns ← (Text.pieces (· = ',') inner).mapM (readColumn line)
      let keys := columns.filterMap fun (column, isKey) => if isKey then some column.name else none
      return {
        name := String.ofList name
        schema := ⟨columns.map (·.1)⟩
        primaryKey := keys.getLast? }

/-- The lines of a catalog text that say something, without the blanks at their ends. -/
def ofText (text : String) : List String :=
  (((Text.pieces (· = '\n') text.toList).map Text.trim).filter (!·.isEmpty)).map String.ofList

end CatalogLine

end HeapStore
