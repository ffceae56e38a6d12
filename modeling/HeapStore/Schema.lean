import HeapStore.Field

/-!
# Schemas

A schema lists the columns of a table, each with a type and a name.  Two schemas are compatible
when their types agree column by column; names do not matter for that.
-/

namespace HeapStore

/-- One column of a table. -/
structure Column where
  type : FieldType
  name : String
  deriving DecidableEq, Inhabited

/-- The columns of a table, in order. -/
structure Schema where
  columns : List Column
  deriving DecidableEq, Inhabited

namespace Schema

/-- The types of the columns. -/
def types (schema : Schema) : List FieldType :=
  schema.columns.map (·.type)

/-- A schema of the given types; the columns are named `f0`, `f1` and so on. -/
def ofTypes (types : List FieldType) : Schema :=
  ⟨types.zipIdx.map fun (type, index) => ⟨type, s!"f{index}"⟩⟩

/-- Number of columns. -/
def size (schema : Schema) : Nat :=
  schema.columns.length

/-- Bytes of one stored row. -/
def rowSize (schema : Schema) : Nat :=
  schema.types.foldr (fun type size => type.width + size) 0

/-- The first column of that name. -/
def indexOf? (schema : Schema) (name : String) : Option Nat :=
  schema.columns.findIdx? (·.name == name)

/-- The types agree column by column. -/
def compatible (a b : Schema) : Bool :=
  a.types == b.types

/-- Written `(name type, name type)`. -/
def render (schema : Schema) : String :=
  "(" ++ ", ".intercalate (schema.columns.map fun column => s!"{column.name} {column.type.render}")
    ++ ")"

end Schema

end HeapStore
