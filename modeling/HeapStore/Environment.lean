import HeapStore.Bytes
import HeapStore.Text.Utf8

/-!
# Environment variables

The variables that the surroundings set, by name.  Values are byte strings; a value that is no
text counts as not set.
-/

namespace HeapStore

/-- The variables that are set, each with its value. -/
structure Environment where
  bindings : List (String × Bytes)
  deriving Inhabited

namespace Environment

/-- No variable is set. -/
def empty : Environment :=
  ⟨[]⟩

/-- The text that a variable is set to. -/
def text? (env : Environment) (name : String) : Option String :=
  (env.bindings.lookup name).bind Text.ofUtf8?

end Environment

end HeapStore
