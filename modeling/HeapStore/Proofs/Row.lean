import HeapStore.Proofs.Bytes
import HeapStore.Row

/-!
# Rows read back

A stored field fills exactly the cell of its type, and a value that is already cut to its cell is
read back from it.  The same then holds of whole rows: `decodeFields?_encode` says that the slot
of a valid row gives its fields again, and `fit_of_decodeFields?` that whatever a slot gives is
valid.
-/

namespace HeapStore

/-! ## Texts that fit a cell -/

theorem utf8ByteSize_ofList (chars : List Char) :
    (String.ofList chars).utf8ByteSize = (chars.map Char.utf8Size).sum := by
  rw [← String.size_toByteArray, String.toByteArray_ofList]
  induction chars with
  | nil => simp
  | cons c chars ih =>
      rw [List.utf8Encode_cons, ByteArray.size_append, ih, List.utf8Encode_singleton]
      simp

theorem sum_fittingChars_le (room : Nat) (chars : List Char) :
    ((fittingChars room chars).map Char.utf8Size).sum ≤ room := by
  induction chars generalizing room with
  | nil => simp [fittingChars]
  | cons c chars ih =>
      unfold fittingChars
      split
      · have hrest := ih (room - c.utf8Size)
        simp only [List.map_cons, List.sum_cons]
        omega
      · simp

theorem fittingChars_of_le {room : Nat} {chars : List Char}
    (hfits : (chars.map Char.utf8Size).sum ≤ room) : fittingChars room chars = chars := by
  induction chars generalizing room with
  | nil => rfl
  | cons c chars ih =>
      simp only [List.map_cons, List.sum_cons] at hfits
      have hhead : c.utf8Size ≤ room := by omega
      have htail : fittingChars (room - c.utf8Size) chars = chars := ih (by omega)
      simp [fittingChars, hhead, htail]

theorem length_utf8_storedText_le (s : String) :
    (Text.utf8 (storedText s)).length ≤ textCapacity := by
  rw [Text.length_utf8, storedText, utf8ByteSize_ofList]
  exact sum_fittingChars_le _ _

/-- A text that takes no more bytes than a cell holds is stored whole. -/
theorem storedText_of_le {s : String} (hfits : s.utf8ByteSize ≤ textCapacity) :
    storedText s = s := by
  have hsum : (s.toList.map Char.utf8Size).sum ≤ textCapacity := by
    rw [← utf8ByteSize_ofList, String.ofList_toList]
    exact hfits
  rw [storedText, fittingChars_of_le hsum, String.ofList_toList]

theorem storedText_storedText (s : String) : storedText (storedText s) = storedText s := by
  apply storedText_of_le
  rw [← Text.length_utf8]
  exact length_utf8_storedText_le s

theorem ofUtf8?_utf8 (s : String) : Text.ofUtf8? (Text.utf8 s) = some s := by
  have hvalid : s.toByteArray.IsValidUTF8 := s.isValidUTF8
  simp [Text.ofUtf8?, Text.toByteArray_utf8, String.fromUTF8?, hvalid, String.fromUTF8]

theorem utf8_of_ofUtf8? {bytes : List UInt8} {s : String} (hread : Text.ofUtf8? bytes = some s) :
    Text.utf8 s = bytes := by
  simp only [Text.ofUtf8?, String.fromUTF8?] at hread
  split at hread
  · have hs := Option.some.inj hread
    rw [← hs]
    simp [Text.utf8, String.fromUTF8]
  · exact absurd hread (by simp)

/-! ## Fields -/

namespace Field

@[simp] theorem stored_stored (field : Field) : field.stored.stored = field.stored := by
  cases field with
  | int value => rfl
  | string text => simp [stored, ofText, storedText_storedText]

@[simp] theorem type_stored (field : Field) : field.stored.type = field.type := by
  cases field <;> rfl

@[simp] theorem length_encode (field : Field) : field.encode.length = field.type.width := by
  cases field with
  | int value => simp [encode, type, FieldType.width]
  | string text =>
      have hfits := length_utf8_storedText_le text
      simp only [encode, type, FieldType.width, List.length_append, Bytes.length_ofNat,
        Bytes.length_zeros]
      omega

/-- A field that is cut to its cell is read back from it. -/
theorem decode?_encode (field : Field) (hstored : field.stored = field) :
    decode? field.type field.encode = some field := by
  cases field with
  | int value =>
      have hsmall : value.toUInt32.toNat < 256 ^ 4 := value.toUInt32.toNat_lt
      have hfront : (Bytes.ofNat 4 value.toUInt32.toNat).take 4
          = Bytes.ofNat 4 value.toUInt32.toNat := List.take_of_length_le (by simp)
      simp only [type, decode?, encode, hfront, Bytes.toNat_ofNat _ _ hsmall]
      simp
  | string text =>
      have htext : storedText text = text := by
        simpa [stored, ofText] using hstored
      have hfits : (Text.utf8 text).length ≤ textCapacity := by
        have := length_utf8_storedText_le text
        rwa [htext] at this
      have hsmall : (Text.utf8 text).length < 256 ^ 4 := by
        unfold textCapacity at hfits
        omega
      have hlength : (Bytes.ofNat 4 (Text.utf8 text).length).length = 4 := by simp
      simp only [type, decode?, encode, htext, List.append_assoc]
      rw [List.take_left' hlength, Bytes.toNat_ofNat _ _ hsmall, if_neg (by omega)]
      rw [Bytes.slice, List.drop_left' hlength, List.take_left' rfl, ofUtf8?_utf8]
      rfl

/-- Whatever a cell gives has the type asked for and is cut to the cell. -/
theorem stored_of_decode? {type : FieldType} {cell : Bytes} {field : Field}
    (hread : decode? type cell = some field) : field.type = type ∧ field.stored = field := by
  cases type with
  | int =>
      have hfield := Option.some.inj hread
      rw [← hfield]
      exact ⟨rfl, rfl⟩
  | string =>
      simp only [decode?] at hread
      split at hread
      · exact absurd hread (by simp)
      · obtain ⟨text, htext, rfl⟩ := Option.map_eq_some_iff.mp hread
        have hbytes := utf8_of_ofUtf8? htext
        have hfits : text.utf8ByteSize ≤ textCapacity := by
          rw [← Text.length_utf8, hbytes, Bytes.slice, List.length_take]
          omega
        exact ⟨rfl, by simp [stored, ofText, storedText_of_le hfits]⟩

end Field

/-! ## Rows -/

/-- The values match the types one by one, and their texts are cut to their cells. -/
def FieldsFit (types : List FieldType) (fields : List Field) : Prop :=
  fields.map Field.type = types ∧ fields.map Field.stored = fields

/-- A row as `Row.ofFields?` and the reading of a page build it. -/
def Row.Valid (row : Row) : Prop :=
  FieldsFit row.schema.types row.fields

/-- Every row that `Row.ofFields?` builds is valid. -/
theorem Row.valid_of_ofFields? {schema : Schema} {fields : List Field} {row : Row}
    (hbuilt : Row.ofFields? schema fields = some row) : row.Valid := by
  simp only [Row.ofFields?] at hbuilt
  split at hbuilt
  · rename_i htypes
    have hrow := Option.some.inj hbuilt
    rw [← hrow]
    exact ⟨htypes, by simp [Function.comp_def]⟩
  · exact absurd hbuilt (by simp)

/-- The slot of a row is as wide as its schema says. -/
theorem length_encodeFields {types : List FieldType} {fields : List Field}
    (hfit : FieldsFit types fields) :
    (fields.flatMap Field.encode).length
      = types.foldr (fun type size => type.width + size) 0 := by
  obtain ⟨htypes, -⟩ := hfit
  subst htypes
  induction fields with
  | nil => rfl
  | cons field fields ih => simp [ih]

/-- The fields of a slot are read back from it. -/
theorem decodeFields?_encode {types : List FieldType} {fields : List Field}
    (hfit : FieldsFit types fields) :
    decodeFields? types (fields.flatMap Field.encode) = some fields := by
  obtain ⟨htypes, hstored⟩ := hfit
  subst htypes
  induction fields with
  | nil => rfl
  | cons field fields ih =>
      simp only [List.map_cons, List.cons.injEq] at hstored
      obtain ⟨hhead, htail⟩ := hstored
      have hwidth := field.length_encode
      simp only [List.map_cons, decodeFields?, List.flatMap_cons]
      rw [List.take_left' hwidth, List.drop_left' hwidth, Field.decode?_encode field hhead]
      simp [ih htail]

/-- Where fields are read, the first one is read, and the others are. -/
theorem of_decodeFields?_cons {type : FieldType} {types : List FieldType} {cell : Bytes}
    {fields : List Field} (hread : decodeFields? (type :: types) cell = some fields) :
    ∃ field others, fields = field :: others ∧
      Field.decode? type (cell.take type.width) = some field ∧
      decodeFields? types (cell.drop type.width) = some others := by
  unfold decodeFields? at hread
  split at hread
  · exact absurd hread (by simp)
  · rename_i field hfield
    obtain ⟨others, hothers, rfl⟩ := Option.map_eq_some_iff.mp hread
    exact ⟨field, others, rfl, hfield, hothers⟩

/-- The fields that a slot gives fit the types asked for. -/
theorem fit_of_decodeFields? {types : List FieldType} {cell : Bytes} {fields : List Field}
    (hread : decodeFields? types cell = some fields) : FieldsFit types fields := by
  induction types generalizing cell fields with
  | nil =>
      have hfields := Option.some.inj hread
      rw [← hfields]
      exact ⟨rfl, rfl⟩
  | cons type types ih =>
      obtain ⟨field, others, rfl, hfield, hothers⟩ := of_decodeFields?_cons hread
      obtain ⟨htype, hcut⟩ := Field.stored_of_decode? hfield
      obtain ⟨htypes, hcuts⟩ := ih hothers
      exact ⟨by simp [htype, htypes], by simp [hcut, hcuts]⟩

end HeapStore
