import HeapStore.Inspect

/-!
# The command line

The program takes the paths of the catalog and of the log as its first two arguments, else from
the environment, else by name in the working directory.  It prints one line for each table, or one
line that says what went wrong.
-/

namespace HeapStore.CommandLine

/-- What a run prints and the code with which it ends. -/
structure Outcome where
  code : Nat
  output : List String
  errors : List String
  deriving DecidableEq, Inhabited

/-- The path of the catalog file. -/
def catalogPath (arguments : List String) (env : Environment) : String :=
  (arguments[0]?.or (env.text? "KEEL_CATALOG")).getD "catalog.txt"

/-- The path of the log file. -/
def logPath (arguments : List String) (env : Environment) : String :=
  (arguments[1]?.or (env.text? "KEEL_WAL_PATH")).getD "keel.wal"

/-- Reads the settings and inspects the tables. -/
def run (disk : Disk) (arguments : List String) (env : Environment) :
    Except StoreError (List TableSummary) × Disk :=
  match Settings.ofEnvironment env with
  | .error error => (.error error, disk)
  | .ok settings =>
    inspect disk (Failpoints.ofEnvironment env) (catalogPath arguments env)
      (logPath arguments env) settings

/-- What is printed for a result. -/
def report : Except StoreError (List TableSummary) → Outcome
  | .ok summaries => ⟨0, summaries.map TableSummary.render, []⟩
  | .error error => ⟨1, [], ["error: " ++ error.message]⟩

end HeapStore.CommandLine
