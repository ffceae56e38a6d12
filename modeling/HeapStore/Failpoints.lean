import HeapStore.Environment
import HeapStore.Error
import HeapStore.Text.Blank

/-!
# Failpoints

A failpoint is a named step that can be made to fail.  It is armed for the whole process by a
variable of the environment, or by hand until it is disarmed.
-/

namespace HeapStore

/-- The step before the bytes of a page reach a table file. -/
def heapWritePage : String := "heap.write_page"

/-- The step after the log is forced for a flush, before the page is written. -/
def flushAfterForce : String := "pool.flush_after_force"

/-- The armed failpoints: those armed by hand, and those of the process. -/
structure Failpoints where
  byHand : List String
  ofProcess : List String
  deriving Inhabited

namespace Failpoints

/-- No failpoint is armed. -/
def unarmed : Failpoints :=
  ⟨[], []⟩

/-- The failpoints that the environment lists, with commas between them; nothing by hand. -/
def ofEnvironment (env : Environment) : Failpoints :=
  let sites := match env.text? "KEEL_FAILPOINTS" with
    | none => []
    | some list =>
      ((Text.pieces (· = ',') list.toList).map fun site => String.ofList (Text.trim site)).filter
        (· ≠ "")
  ⟨[], sites⟩

/-- Arms a failpoint by hand. -/
def enable (points : Failpoints) (site : String) : Failpoints :=
  { points with byHand := site :: points.byHand.filter (· ≠ site) }

/-- Disarms a failpoint that was armed by hand. -/
def disable (points : Failpoints) (site : String) : Failpoints :=
  { points with byHand := points.byHand.filter (· ≠ site) }

/-- Disarms everything that was armed by hand. -/
def clear (points : Failpoints) : Failpoints :=
  { points with byHand := [] }

/-- The failpoint is armed, one way or the other. -/
def isEnabled (points : Failpoints) (site : String) : Bool :=
  points.byHand.contains site || points.ofProcess.contains site

/-- Fails if the failpoint is armed. -/
def check (points : Failpoints) (site : String) : Except StoreError Unit :=
  if points.isEnabled site then .error (.file (.failpoint site)) else .ok ()

end Failpoints

end HeapStore
