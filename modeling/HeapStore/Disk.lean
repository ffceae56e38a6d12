import HeapStore.Disk.Content
import HeapStore.Disk.Path

/-!
# The disk

The disk maps locations to directories and to the contents of files; the root is always there.
Paths are followed name by name, and every name on the way must be a directory.  Files are
created and filled anew, never removed, so an opened file stays where it is.
-/

namespace HeapStore

/-- What lies at a location. -/
inductive Entry where
  | directory
  | file (content : Content)
  deriving DecidableEq, Inhabited

/-- All directories and files, and the directory at which relative paths start. -/
structure Disk where
  entries : List (Location × Entry)
  workingDirectory : Location
  deriving Inhabited

namespace Disk

/-! ## Contents -/

/-- What lies at `location`. -/
def entry? (disk : Disk) (location : Location) : Option Entry :=
  if location = [] then some .directory else disk.entries.lookup location

/-- Puts `entry` at `location`, in place of what was there. -/
def put (disk : Disk) (location : Location) (entry : Entry) : Disk :=
  if disk.entries.any (·.1 = location) then
    { disk with
      entries := disk.entries.map fun old => if old.1 = location then (location, entry) else old }
  else { disk with entries := disk.entries ++ [(location, entry)] }

/-- The content of the file at `location`, empty if there is no file. -/
def content (disk : Disk) (location : Location) : Content :=
  match disk.entry? location with
  | some (.file content) => content
  | _ => .empty

/-- Gives the file at `location` a new content; a file that is missing is made. -/
def write (disk : Disk) (location : Location) (content : Content) : Disk :=
  disk.put location (.file content)

/-! ## Following paths -/

/-- The most bytes that a name can have. -/
def nameLimit : Nat :=
  255

/-- The most bytes that a path can have, with the mark that ends it. -/
def pathLimit : Nat :=
  4096

/-- A name that has room in a directory. -/
def fits (name : String) : Bool :=
  name.utf8ByteSize ≤ nameLimit

/-- Where a path starts. -/
def start (disk : Disk) (path : Path) : Location :=
  if path.absolute then [] else disk.workingDirectory

/-- Follows names from `origin`.  Each step leaves a directory, and a name too long to be in one is
refused there; the place reached need not exist. -/
def follow (disk : Disk) (origin : Location) : List String → Except DiskError Location
  | [] => .ok origin
  | name :: rest =>
    match disk.entry? origin with
    | none => .error .notFound
    | some (.file _) => .error .notADirectory
    | some .directory =>
      if name = "." then disk.follow origin rest
      else if name = ".." then disk.follow origin.dropLast rest
      else if fits name then disk.follow (origin ++ [name]) rest
      else .error .nameTooLong

/-- The directory that names lead to. -/
def directoryAt (disk : Disk) (origin : Location) (names : List String) :
    Except DiskError Location := do
  let location ← disk.follow origin names
  match disk.entry? location with
  | none => throw .notFound
  | some (.file _) => throw .notADirectory
  | some .directory => return location

/-- The names lead to a directory. -/
def isDirectory (disk : Disk) (origin : Location) (names : List String) : Bool :=
  match disk.directoryAt origin names with
  | .ok _ => true
  | .error _ => false

/-- A name that no file can have. -/
def hasNul (names : List String) : Bool :=
  names.any fun name => name.toList.contains '\x00'

/-- Refuses a path for its text alone. -/
def checkPath (path : Path) : Except DiskError Unit := do
  if hasNul path.names then throw .nulInName
  if pathLimit ≤ path.size then throw .nameTooLong

/-- The location of an existing file or directory.  Names are looked up one by one, so the length
of the whole path does not matter. -/
def locate (disk : Disk) (path : Path) : Except DiskError Location := do
  if hasNul path.names then throw .nulInName
  if path.names = [] && !path.absolute then throw .notFound
  let location ← disk.follow (disk.start path) path.names
  match disk.entry? location with
  | none => throw .notFound
  | some (.file _) => if path.trailing then throw .notADirectory else return location
  | some .directory => return location

/-- The content of the file that the path names. -/
def read (disk : Disk) (path : Path) : Except DiskError Content := do
  checkPath path
  let location ← disk.locate path
  match disk.entry? location with
  | some (.file content) => return content
  | _ => throw .isADirectory

/-! ## Creating -/

/-- Makes one directory; the one above it must exist. -/
def makeDirectory (disk : Disk) (origin : Location) (names : List String) :
    Except DiskError Disk := do
  if hasNul names then throw .nulInName
  match names.getLast? with
  | none => throw .alreadyExists
  | some name =>
    let above ← disk.directoryAt origin names.dropLast
    if name = "." || name = ".." then throw .alreadyExists
    if !fits name then throw .nameTooLong
    match disk.entry? (above ++ [name]) with
    | some _ => throw .alreadyExists
    | none => return disk.put (above ++ [name]) .directory

/-- Makes a directory and those above it that are missing.  The names are given last first.
A directory that is already there is no failure; directories made before a failure stay. -/
def makeDirectories (disk : Disk) (origin : Location) :
    (reversedNames : List String) → Except DiskError Unit × Disk
  | [] => (.ok (), disk)
  | name :: above =>
    let names := (name :: above).reverse
    match disk.makeDirectory origin names with
    | .ok made => (.ok (), made)
    | .error .notFound =>
      match disk.makeDirectories origin above with
      | (.error error, made) => (.error error, made)
      | (.ok (), made) =>
        match made.makeDirectory origin names with
        | .ok all => (.ok (), all)
        | .error error =>
          (if made.isDirectory origin names then .ok () else .error error, made)
    | .error error => (if disk.isDirectory origin names then .ok () else .error error, disk)

/-- Makes what is missing on the way to names that a `.` follows.  A `.` cannot be made, and the
directory that it stands for is not made in its place, so the names must lead to one. -/
def makeAbove (disk : Disk) (origin : Location) (names : List String) :
    Except DiskError Unit × Disk :=
  match disk.directoryAt origin names with
  | .ok _ => (.ok (), disk)
  | .error .notFound =>
    match disk.makeDirectories origin names.dropLast.reverse with
    | (.error error, made) => (.error error, made)
    | (.ok (), made) => ((made.directoryAt origin names).map fun _ => (), made)
  | .error error => (.error error, disk)

/-- Makes the directory that a path names, and those above it. -/
def makePath (disk : Disk) (path : Path) : Except DiskError Unit × Disk :=
  match checkPath path with
  | .error error => (.error error, disk)
  | .ok () =>
    if path.names.getLast? = some "." then disk.makeAbove (disk.start path) path.plainNames
    else disk.makeDirectories (disk.start path) path.plainNames.reverse

/-- Makes the directory that the last name of the path stands in. -/
def makeParent (disk : Disk) (path : Path) : Except DiskError Unit × Disk :=
  match path.parent? with
  | none => (.ok (), disk)
  | some above => disk.makePath above

/-- The location of a file to be written; a file that is missing is created empty. -/
def openFile (disk : Disk) (path : Path) : Except DiskError (Location × Disk) := do
  checkPath path
  match path.names.getLast? with
  | none => if path.absolute then throw .isADirectory else throw .notFound
  | some name =>
    let above ← disk.directoryAt (disk.start path) path.names.dropLast
    if name = "." || name = ".." || path.trailing then throw .isADirectory
    if !fits name then throw .nameTooLong
    let location := above ++ [name]
    match disk.entry? location with
    | some .directory => throw .isADirectory
    | some (.file _) => return (location, disk)
    | none => return (location, disk.put location (.file .empty))

/-- Changes the file at a path, which is first made if it is missing, and gives its new length. -/
def change (disk : Disk) (path : Path) (edit : Content → Except DiskError Content) :
    Except DiskError Nat × Disk :=
  match disk.openFile path with
  | .error error => (.error error, disk)
  | .ok (location, made) =>
    match edit (made.content location) with
    | .error error => (.error error, made)
    | .ok content => (.ok content.size, made.write location content)

end Disk

end HeapStore
