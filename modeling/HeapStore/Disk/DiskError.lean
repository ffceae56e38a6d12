/-!
# What can go wrong with a path

The causes for which a directory or file cannot be reached, each with the words the system has
for it.
-/

namespace HeapStore

/-- Why the system refuses a path or a position in a file. -/
inductive DiskError where
  | notFound
  | alreadyExists
  | notADirectory
  | isADirectory
  | invalidArgument
  | nameTooLong
  | nulInName
  | sizeOutOfRange
  deriving DecidableEq, Inhabited, Repr

namespace DiskError

/-- The wording of the cause. -/
def message : DiskError → String
  | .notFound => "No such file or directory (os error 2)"
  | .alreadyExists => "File exists (os error 17)"
  | .notADirectory => "Not a directory (os error 20)"
  | .isADirectory => "Is a directory (os error 21)"
  | .invalidArgument => "Invalid argument (os error 22)"
  | .nameTooLong => "File name too long (os error 36)"
  | .nulInName => "file name contained an unexpected NUL byte"
  | .sizeOutOfRange => "out of range integral type conversion attempted"

end DiskError

end HeapStore
