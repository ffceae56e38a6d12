import HeapStore.CommandLine

/-!
# The program

Reads the files that an inspection can touch into a disk, runs the command line on it, writes back
what has changed, and prints the outcome.
-/

namespace HeapStore.Program

/-- The variables that the program looks at. -/
def variableNames : List String :=
  [ "KEEL_CATALOG", "KEEL_WAL_PATH", "KEEL_POOL_PAGES", "KEEL_PAGE_SIZE",
    "KEEL_LOCK_TIMEOUT_MS", "KEEL_LOCK_JITTER_MS", "KEEL_LOCK_POLL_MS", "KEEL_FAILPOINTS" ]

/-- The variables that are set. -/
def environment : IO Environment := do
  let found ← variableNames.filterMapM fun name => do
    return (← IO.getEnv name).map fun value => (name, Text.utf8 value)
  return ⟨found⟩

/-- The names on the way from the root to a path that has no `.` or `..`. -/
def locationOf (path : String) : Location :=
  (Path.ofString path).names

/-- Adds what lies at a path, and the directories above it, to the disk. -/
def addPath (disk : Disk) (path : String) : IO Disk := do
  try
    let found ← IO.FS.realPath path
    let location := locationOf found.toString
    let above := (List.range location.length).foldl
      (fun (disk : Disk) count => disk.put (location.take count) .directory) disk
    if ← found.isDir then return above.put location .directory
    let content ← IO.FS.readBinFile found
    return above.put location (.file (.ofBytes content.data.toList))
  catch _ => return disk

/-- The path texts of the table files that a catalog text names. -/
def tablePaths (disk : Disk) (catalogPath : String) : List String :=
  match disk.read (Path.ofString catalogPath), disk.locate (Path.ofString catalogPath) with
  | .ok content, .ok location =>
    let lines := ((Text.ofUtf8? content.toBytes).map CatalogLine.ofText).getD []
    lines.filterMap fun line =>
      match CatalogLine.parse line with
      | .ok definition =>
        some (Path.join (Location.render location.dropLast) (definition.name ++ ".dat"))
      | .error _ => none
  | _, _ => []

/-- Adds the directory that a path's last name stands in. -/
def addParent (disk : Disk) (path : String) : IO Disk :=
  match (Path.ofString path).parent? with
  | none => return disk
  | some above =>
    addPath disk (above.plainNames.foldl Path.join (if above.absolute then "/" else "."))

/-- The part of the real disk that a run with these paths can touch. -/
def snapshot (catalogPath logPath : String) : IO Disk := do
  let here := locationOf (← IO.currentDir).toString
  let disk ← addPath ⟨[], here⟩ "."
  let disk ← [catalogPath, logPath].foldlM addParent disk
  let disk ← [catalogPath, logPath].foldlM addPath disk
  let tables := tablePaths disk catalogPath
  let disk ← tables.foldlM addParent disk
  tables.foldlM addPath disk

/-- Writes back the directories and files that a run has made or changed. -/
def writeBack (before after : Disk) : IO Unit :=
  after.entries.forM fun (location, entry) => do
    if before.entry? location ≠ some entry then
      match entry with
      | .directory => IO.FS.createDirAll location.render
      | .file content => IO.FS.writeBinFile location.render content.toBytes.toByteArray

end HeapStore.Program

open HeapStore in
/-- Inspects the tables of a catalog and prints a line for each. -/
def main (arguments : List String) : IO UInt32 := do
  let env ← Program.environment
  let before ← Program.snapshot (CommandLine.catalogPath arguments env)
    (CommandLine.logPath arguments env)
  let (result, after) := CommandLine.run before arguments env
  Program.writeBack before after
  let outcome := CommandLine.report result
  outcome.output.forM IO.println
  outcome.errors.forM IO.eprintln
  return UInt32.ofNat outcome.code
