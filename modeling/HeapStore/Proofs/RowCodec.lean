import HeapStore.Proofs.Editing
import HeapStore.Proofs.Reader

/-!
# The stored form of rows

A row takes exactly the bytes that its schema says, and it is read from them under every compatible
schema, whatever stands behind them (`Row.survives_storing`).  A text is cut twice, when the row is
built and when it is stored; the second cut finds nothing more to take away, so the row in memory is
the row that is read.

`decodeFields?` takes the columns from a slot that was cut out before.  `readFields` takes the same
columns one after the other off the front of the bytes, and stops right behind the last one
(`readFields_eq`).
-/

namespace HeapStore

/-! ## Reading along the bytes -/

/-- Takes a field of this type off the front.  The cell of a text is taken whole before its length
is looked at. -/
def readField (type : FieldType) (bytes : Bytes) : Except Overrun (Option (Field × Bytes)) := do
  let (number, rest) ← readNumber bytes
  match type with
  | .int => return some (.int number.toInt32, rest)
  | .string =>
    let (content, rest) ← takeExactly textCapacity rest
    if textCapacity < number.toNat then return none
    return (Text.ofUtf8? (content.take number.toNat)).map fun text => (.string text, rest)

/-- Takes fields of these types off the front. -/
def readFields : List FieldType → Bytes → Except Overrun (Option (List Field × Bytes))
  | [], bytes => return some ([], bytes)
  | type :: types, bytes => do
    match ← readField type bytes with
    | none => return none
    | some (field, rest) =>
      match ← readFields types rest with
      | none => return none
      | some (fields, rest) => return some (field :: fields, rest)

/-- Takes a row of the schema off the front; it is at no address. -/
def Row.read (schema : Schema) (bytes : Bytes) : Except Overrun (Option (Row × Bytes)) := do
  match ← readFields schema.types bytes with
  | none => return none
  | some (fields, rest) => return some (⟨schema, fields, none⟩, rest)

section

variable {bytes : Bytes}

/-- The reader along the bytes finds in front of them what stands in the cell. -/
theorem readField_eq {type : FieldType} (hinside : type.width ≤ bytes.length) :
    readField type bytes =
      .ok ((Field.decode? type (bytes.take type.width)).map fun field =>
        (field, bytes.drop type.width)) := by
  have hfour : 4 ≤ type.width := by
    cases type
    · exact Nat.le_refl 4
    · exact Nat.le_add_right 4 _
  have hdigits : (bytes.take 4).length = 4 := by
    rw [List.length_take]
    omega
  have hnumber := (Bytes.ofNat_toNat_four hdigits).1
  have hcell : (bytes.take type.width).take 4 = bytes.take 4 := by
    rw [List.take_take, Nat.min_eq_left hfour]
  unfold readField
  simp only [readNumber_of_le (Nat.le_trans hfour hinside), bind, Except.bind]
  cases type with
  | int =>
      simp only [Field.decode?, hcell]
      rfl
  | string =>
      have hcontent : textCapacity ≤ (bytes.drop 4).length := by
        rw [List.length_drop]
        exact Nat.le_sub_of_add_le' hinside
      have hslice : ∀ length, Bytes.slice 4 length (bytes.take FieldType.string.width)
          = ((bytes.drop 4).take textCapacity).take length := by
        intro length
        rw [Bytes.slice, List.drop_take]
        rfl
      simp only [takeExactly_of_le hcontent, hnumber, Field.decode?, hcell, hslice]
      split
      · rfl
      · rw [Option.map_map, List.drop_drop]
        rfl

/-- No column is asked for that is not there, and the reader stops behind the last one. -/
theorem readFields_eq {types : List FieldType}
    (hinside : types.foldr (fun type size => type.width + size) 0 ≤ bytes.length) :
    readFields types bytes =
      .ok ((decodeFields? types bytes).map fun fields =>
        (fields, bytes.drop (types.foldr (fun type size => type.width + size) 0))) := by
  induction types generalizing bytes with
  | nil => rfl
  | cons type types ih =>
      simp only [List.foldr_cons] at hinside ⊢
      have hrest := @ih (bytes.drop type.width) (by
        rw [List.length_drop]
        omega)
      rw [readFields, readField_eq (by omega), decodeFields?]
      simp only [bind, Except.bind]
      cases Field.decode? type (bytes.take type.width) with
      | none => rfl
      | some field =>
          simp only [Option.map_some, hrest, List.drop_drop]
          cases decodeFields? types (bytes.drop type.width) with
          | none => rfl
          | some fields => rfl

end

/-! ## Reading what was stored -/

/-- A text is stored as if it had not been cut before. -/
theorem Field.encode_stored (field : Field) : field.stored.encode = field.encode := by
  cases field with
  | int value => rfl
  | string text => simp only [stored, ofText, encode, storedText_storedText]

theorem readField_encode {field : Field} (hstored : field.stored = field) (rest : Bytes) :
    readField field.type (field.encode ++ rest) = .ok (some (field, rest)) := by
  have hwidth := field.length_encode
  rw [readField_eq (by rw [List.length_append]; omega), List.take_left' hwidth,
    List.drop_left' hwidth, Field.decode?_encode field hstored]
  rfl

/-- Fields are read back whatever follows them. -/
theorem readFields_encode {types : List FieldType} {fields : List Field}
    (hfit : FieldsFit types fields) (rest : Bytes) :
    readFields types (fields.flatMap Field.encode ++ rest) = .ok (some (fields, rest)) := by
  obtain ⟨htypes, hstored⟩ := hfit
  subst htypes
  induction fields with
  | nil => rfl
  | cons field fields ih =>
      simp only [List.map_cons, List.cons.injEq] at hstored
      obtain ⟨hhead, htail⟩ := hstored
      rw [List.map_cons, List.flatMap_cons, List.append_assoc, readFields]
      simp only [readField_encode hhead, bind, Except.bind, ih htail]
      rfl

/-- What follows the fields does not matter for a slot either. -/
theorem decodeFields?_append {types : List FieldType} {fields : List Field}
    (hfit : FieldsFit types fields) (rest : Bytes) :
    decodeFields? types (fields.flatMap Field.encode ++ rest) = some fields := by
  have hread := readFields_encode hfit rest
  rw [readFields_eq (by rw [List.length_append, length_encodeFields hfit]; omega)] at hread
  obtain ⟨found, hfound, hsame⟩ := Option.map_eq_some_iff.mp (Except.ok.inj hread)
  rw [hfound, (Prod.mk.inj hsame).1]

namespace Page

/-- A row of a page is read from the bytes of the page under every compatible schema. -/
theorem row?_reread {page : Page} {schema : Schema} (hsound : page.Sound)
    (hcompatible : schema.compatible page.schema = true) {slot : Nat} {row : Row}
    (hrow : page.row? slot = some row) :
    ∃ reread, parse page.address schema page.bytes = .ok reread ∧
      reread.row? slot = some { row with schema := schema } := by
  have hparse := parse_bytes (sound_withSchema hsound hcompatible)
  rw [bytes_withSchema hcompatible] at hparse
  refine ⟨_, hparse, ?_⟩
  have hsame : (((page.withSchema schema).withOwner none).snapshot).row? slot = some row := hrow
  rw [row?_normal, hsame]
  rfl

end Page

namespace Row

variable {schema other : Schema} {fields : List Field} {row : Row}

theorem parts_of_ofFields? (hbuilt : ofFields? schema fields = some row) :
    row.schema = schema ∧ row.fields = fields.map Field.stored := by
  simp only [ofFields?] at hbuilt
  split at hbuilt
  · rw [← Option.some.inj hbuilt]
    exact ⟨rfl, rfl⟩
  · exact absurd hbuilt (by simp)

theorem types_of_compatible (hcompatible : schema.compatible other = true) :
    schema.types = other.types := by
  simpa [Schema.compatible] using hcompatible

theorem read_encode (hvalid : row.Valid) (hcompatible : row.schema.compatible other = true)
    (rest : Bytes) :
    decodeFields? other.types (row.encode ++ rest) = some row.fields ∧
      read other (row.encode ++ rest) = .ok (some (⟨other, row.fields, none⟩, rest)) := by
  have hfit : FieldsFit other.types row.fields := by
    rw [← types_of_compatible hcompatible]
    exact hvalid
  refine ⟨decodeFields?_append hfit rest, ?_⟩
  rw [read, encode, readFields_encode hfit]
  rfl

/-- A row that is built is stored in exactly as many bytes as its schema says, the same ones as for
the texts before they were cut, and these bytes are read as its fields under every compatible
schema, whatever follows them.  On a page it is read back with its address. -/
theorem survives_storing (hbuilt : ofFields? schema fields = some row) :
    row.encode.length = schema.rowSize ∧ row.encode = fields.flatMap Field.encode ∧
      ∀ other : Schema, schema.compatible other = true →
        (∀ rest, decodeFields? other.types (row.encode ++ rest) = some row.fields ∧
          read other (row.encode ++ rest) = .ok (some (⟨other, row.fields, none⟩, rest))) ∧
        ∀ (address : PageAddress) (pageSchema : Schema) (data : Bytes) (page fuller : Page)
          (edits : List PageEdit) (stored : Row), Page.Loaded address pageSchema data page →
          (∀ earlier, PageEdit.insert earlier ∈ edits → earlier.Obtained) →
          (page.edits edits).insert row = .ok (stored, fuller) →
          ∃ slot reread, stored.address = some ⟨address, slot⟩ ∧
            Page.parse address other fuller.bytes = .ok reread ∧
            reread.row? slot = some ⟨other, row.fields, some ⟨address, slot⟩⟩ := by
  have hvalid := valid_of_ofFields? hbuilt
  obtain ⟨hschema, hfields⟩ := parts_of_ofFields? hbuilt
  have hbytes : row.encode = fields.flatMap Field.encode := by
    rw [encode, hfields, List.flatMap_map]
    simp only [Field.encode_stored]
  have hlength : row.encode.length = schema.rowSize := by
    rw [← hschema]
    exact length_encodeFields hvalid
  refine ⟨hlength, hbytes, fun other hcompatible => ⟨fun rest => ?_, ?_⟩⟩
  · rw [← hschema] at hcompatible
    exact read_encode hvalid hcompatible rest
  · intro address pageSchema data page fuller edits stored hloaded hrows hinsert
    have hfrom := Page.readFrom_of_parse hloaded.parse_eq
    have hreached := Page.sound_edits hrows hfrom.sound
    have haddress := (Page.edits_keeps page edits).1.trans hfrom.address
    obtain ⟨place, hstored, hinserted⟩ := Page.inserted_of_insert hinsert
    have hpage : place.page = address := hinserted.onPage.trans haddress
    have hrow : fuller.row? place.slot = some stored := by
      rw [hinserted.result, Page.row?_setSlot hinserted.inside, if_pos rfl, hstored]
    have hother : other.compatible fuller.schema = true := by
      have hmine := types_of_compatible hinserted.compatible
      have htheirs := types_of_compatible hcompatible
      rw [hschema] at hmine
      rw [hinserted.result]
      simpa [Schema.compatible, Page.setSlot, ← htheirs] using hmine
    obtain ⟨reread, hparse, hread⟩ :=
      Page.row?_reread (hinserted.sound hreached hvalid) hother hrow
    have hplace : place = ⟨address, place.slot⟩ := by
      rw [← hpage]
    have hsame : fuller.address = address := by
      rw [hinserted.result]
      exact haddress
    rw [hsame] at hparse
    refine ⟨place.slot, reread, ?_, hparse, ?_⟩
    · rw [hstored, ← hplace]
      rfl
    · rw [hread, hstored, ← hplace]
      rfl

/-- A text of two-byte characters behind a one-byte character keeps 127 bytes. -/
theorem survives_storing_cut_text :
    let schema : Schema := ⟨[⟨.int, "number"⟩, ⟨.string, "text"⟩]⟩
    let other : Schema := ⟨[⟨.int, "id"⟩, ⟨.string, "name"⟩]⟩
    let long := String.ofList ('x' :: List.replicate 100 'é')
    let kept : List Field := [.int (-5), .string (String.ofList ('x' :: List.replicate 63 'é'))]
    ∃ row page stored fuller, ofFields? schema [.int (-5), .string long] = some row ∧
      schema.compatible other = true ∧ row.encode.length = 136 ∧
      read other (row.encode ++ [9]) = .ok (some (⟨other, kept, none⟩, [9])) ∧
      Page.empty ⟨1, 0⟩ schema 300 = .ok page ∧ page.insert row = .ok (stored, fuller) ∧
      ∃ reread, Page.parse ⟨1, 0⟩ other fuller.bytes = .ok reread ∧
        reread.row? 0 = some ⟨other, kept, some ⟨⟨1, 0⟩, 0⟩⟩ := by
  intro schema other long kept
  have hrun : ((Page.empty ⟨1, 0⟩ schema 300).toOption.bind fun page =>
      (ofFields? schema [.int (-5), .string long]).bind fun row =>
        (page.insert row).toOption.map fun result => (row.fields, result.1.address))
        = some (kept, some ⟨⟨1, 0⟩, 0⟩) := by
    decide +kernel
  obtain ⟨page, hpage, hrest⟩ := Option.bind_eq_some_iff.mp hrun
  obtain ⟨row, hbuilt, hmap⟩ := Option.bind_eq_some_iff.mp hrest
  obtain ⟨⟨stored, fuller⟩, hinsert, hresult⟩ := Option.map_eq_some_iff.mp hmap
  obtain ⟨hkept, haddress⟩ := Prod.mk.inj hresult
  have hempty := ok_of_toOption hpage
  obtain ⟨hlength, -, hothers⟩ := survives_storing hbuilt
  obtain ⟨hread, hreread⟩ := hothers other rfl
  obtain ⟨slot, reread, hplace, hparse, hrow⟩ := hreread ⟨1, 0⟩ schema _ page fuller [] stored
    (.empty hempty) (by simp) (ok_of_toOption hinsert)
  have hslot : slot = 0 := by
    simpa using hplace.symm.trans haddress
  rw [hslot, hkept] at hrow
  have hfront := (hread [9]).2
  rw [hkept] at hfront
  exact ⟨row, page, stored, fuller, hbuilt, rfl, hlength, hfront, hempty, ok_of_toOption hinsert,
    reread, hparse, hrow⟩

end Row

end HeapStore
