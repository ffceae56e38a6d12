import HeapStore.Text.Blank

/-!
# Paths and locations

A location is where a file lies: the names on the way from the root, none of them `.` or `..`.
A path is what a user writes: it starts at the root or at the working directory, and its names
may go up again.
-/

namespace HeapStore

/-- The names from the root to a file or directory. -/
abbrev Location := List String

namespace Location

/-- The location as text, from the root. -/
def render (location : Location) : String :=
  "/" ++ "/".intercalate location

end Location

/-- A path as written: it may start with a slash, and `pieces` is what stands between the slashes
after that.  A piece is empty where two slashes meet and behind a slash at the end. -/
structure Path where
  absolute : Bool
  pieces : List String
  deriving DecidableEq, Inhabited

namespace Path

/-- Reads a path off its text. -/
def ofString (text : String) : Path :=
  match (Text.pieces (· = '/') text.toList).map String.ofList with
  | "" :: first :: rest => ⟨true, first :: rest⟩
  | pieces => ⟨false, pieces⟩

/-- The names to follow, in order; some may be `.` or `..`. -/
def names (path : Path) : List String :=
  path.pieces.filter (· ≠ "")

/-- A slash follows the last name. -/
def trailing (path : Path) : Bool :=
  path.names ≠ [] && path.pieces.getLast? = some ""

/-- The number of bytes of the path's text: its pieces and the slashes before and between them. -/
def size (path : Path) : Nat :=
  path.pieces.foldr (fun piece size => piece.utf8ByteSize + 1 + size) 0
    + (if path.absolute then 1 else 0) - 1

/-- The text of a file's path below a directory; an absolute path stands for itself. -/
def join (directory file : String) : String :=
  if file.toList.head? = some '/' then file
  else if directory = "" || directory.toList.getLast? = some '/' then directory ++ file
  else directory ++ "/" ++ file

/-- The names that lead somewhere: `.` stays where it is. -/
def plainNames (path : Path) : List String :=
  path.names.filter (· ≠ ".")

/-- The path of the directory that the last name stands in; none if there is no last name. -/
def parent? (path : Path) : Option Path :=
  let idle : String → Bool := fun piece => piece = "" || piece = "."
  match path.pieces.reverse.dropWhile idle with
  | [] => none
  | _ :: above => some { path with pieces := (above.dropWhile idle).reverse }

end Path

end HeapStore
