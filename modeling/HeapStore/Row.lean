import HeapStore.Address
import HeapStore.Schema

/-!
# Rows

A row holds one field for each column of its schema, and the address where it is stored, once it
is.  Its stored form is that of its fields, one after the other.
-/

namespace HeapStore

/-- A row of a table. -/
structure Row where
  schema : Schema
  fields : List Field
  address : Option RecordAddress
  deriving DecidableEq, Inhabited

namespace Row

/-- A row not yet stored, its texts cut to what their cells hold; none if the values do not match
the schema in number and types. -/
def ofFields? (schema : Schema) (fields : List Field) : Option Row :=
  let stored := fields.map Field.stored
  if stored.map Field.type = schema.types then some ⟨schema, stored, none⟩ else none

/-- The stored form of the row. -/
def encode (row : Row) : Bytes :=
  row.fields.flatMap Field.encode

/-- The fields as text, with tabulators between them. -/
def render (row : Row) : String :=
  "\t".intercalate (row.fields.map Field.render)

end Row

/-- The fields that a cell of a slot stores, in the order of their types. -/
def decodeFields? : List FieldType → Bytes → Option (List Field)
  | [], _ => some []
  | type :: types, cell =>
    match Field.decode? type (cell.take type.width) with
    | none => none
    | some field => (decodeFields? types (cell.drop type.width)).map (field :: ·)

end HeapStore
