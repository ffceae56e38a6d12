import HeapStore.Proofs.Bits
import HeapStore.Proofs.Page

/-!
# Pages written again

A page need not be read from bytes that were written by a page: free slots, the unused part of a
stored text and the padding may hold anything, and bits behind the last slot may be set.
`Page.Unreadable` says on the bytes alone when no page can be read from them, and `Page.Reencoded`
what the bytes of a page are that could be read: bitmap and values as they were, zeros everywhere
else.  Such bytes are read as the same page and written again without any change
(`parse_bytes_parse`).
-/

namespace HeapStore

/-! ## Texts that cannot be read -/

/-- The bytes are the UTF-8 form of a text. -/
def Text.IsUtf8 (bytes : List UInt8) : Prop :=
  ∃ s, Text.utf8 s = bytes

theorem Text.ofUtf8?_eq_none_iff {bytes : List UInt8} :
    Text.ofUtf8? bytes = none ↔ ¬ Text.IsUtf8 bytes := by
  constructor
  · rintro hnone ⟨s, rfl⟩
    rw [ofUtf8?_utf8] at hnone
    contradiction
  · intro hno
    cases hread : Text.ofUtf8? bytes with
    | none => rfl
    | some s => exact absurd ⟨s, utf8_of_ofUtf8? hread⟩ hno

/-- The cell of a text whose length exceeds it or whose content is not UTF-8. -/
def Field.BadText (cell : Bytes) : Prop :=
  textCapacity < Bytes.toNat (cell.take 4) ∨
    ¬ Text.IsUtf8 (Bytes.slice 4 (Bytes.toNat (cell.take 4)) cell)

/-- Only texts can be wrong: every number is read. -/
theorem Field.decode?_eq_none_iff {type : FieldType} {cell : Bytes} :
    Field.decode? type cell = none ↔ type = .string ∧ Field.BadText cell := by
  cases type with
  | int => simp [decode?]
  | string =>
      simp only [decode?, BadText, true_and]
      split
      · rename_i hlong
        simp [hlong]
      · rename_i hlong
        rw [Option.map_eq_none_iff, Text.ofUtf8?_eq_none_iff, or_iff_right hlong]

/-! ## Columns of a stored row -/

/-- Where the column starts in a stored row with columns of these types. -/
def columnOffset (types : List FieldType) (column : Nat) : Nat :=
  ((types.take column).map FieldType.width).sum

/-- The bytes of a column of this type in a stored row. -/
def columnCell (types : List FieldType) (column : Nat) (type : FieldType) (cell : Bytes) : Bytes :=
  Bytes.slice (columnOffset types column) type.width cell

@[simp] theorem columnCell_zero (types : List FieldType) (type : FieldType) (cell : Bytes) :
    columnCell types 0 type cell = cell.take type.width := by
  simp [columnCell, columnOffset, Bytes.slice]

@[simp] theorem columnCell_succ (first : FieldType) (types : List FieldType) (column : Nat)
    (type : FieldType) (cell : Bytes) :
    columnCell (first :: types) (column + 1) type cell =
      columnCell types column type (cell.drop first.width) := by
  simp [columnCell, columnOffset, Bytes.slice]

/-- A row is not read exactly if one of its texts is not. -/
theorem decodeFields?_eq_none_iff {types : List FieldType} {cell : Bytes} :
    decodeFields? types cell = none ↔
      ∃ column, types[column]? = some .string ∧
        Field.BadText (columnCell types column .string cell) := by
  induction types generalizing cell with
  | nil => simp [decodeFields?]
  | cons type types ih =>
      have hstep : decodeFields? (type :: types) cell = none ↔
          Field.decode? type (cell.take type.width) = none ∨
            decodeFields? types (cell.drop type.width) = none := by
        rw [decodeFields?]
        cases Field.decode? type (cell.take type.width) with
        | none => simp
        | some field => simp
      rw [hstep, Field.decode?_eq_none_iff, ih]
      constructor
      · rintro (⟨rfl, hbad⟩ | ⟨column, htype, hbad⟩)
        · exact ⟨0, rfl, by rwa [columnCell_zero]⟩
        · exact ⟨column + 1, by simpa using htype, by rwa [columnCell_succ]⟩
      · rintro ⟨column, htype, hbad⟩
        cases column with
        | zero =>
            obtain rfl : type = .string := by simpa using htype
            exact Or.inl ⟨rfl, by rwa [columnCell_zero] at hbad⟩
        | succ column =>
            exact Or.inr ⟨column, by simpa using htype, by rwa [columnCell_succ] at hbad⟩

/-- The field of a column is read from the bytes of this column. -/
theorem decode?_columnCell {types : List FieldType} {cell : Bytes} {fields : List Field}
    (hread : decodeFields? types cell = some fields) {column : Nat} {type : FieldType}
    (htype : types[column]? = some type) :
    ∃ field, fields[column]? = some field ∧
      Field.decode? type (columnCell types column type cell) = some field := by
  induction types generalizing cell fields column with
  | nil => exact absurd htype (by simp)
  | cons first types ih =>
      obtain ⟨field, others, rfl, hfield, hothers⟩ := of_decodeFields?_cons hread
      cases column with
      | zero =>
          obtain rfl : first = type := by simpa using htype
          exact ⟨field, rfl, by rwa [columnCell_zero]⟩
      | succ column =>
          rw [columnCell_succ]
          exact ih hothers (by simpa using htype)

/-- A column is written as the field that the row has there. -/
theorem columnCell_encode {types : List FieldType} {fields : List Field}
    (htypes : fields.map Field.type = types) {column : Nat} {field : Field}
    (hfield : fields[column]? = some field) :
    columnCell types column field.type (fields.flatMap Field.encode) = field.encode := by
  subst htypes
  induction fields generalizing column with
  | nil => exact absurd hfield (by simp)
  | cons first fields ih =>
      rw [List.flatMap_cons]
      cases column with
      | zero =>
          obtain rfl : first = field := by simpa using hfield
          rw [columnCell_zero]
          exact List.take_left' first.length_encode
      | succ column =>
          rw [List.map_cons, columnCell_succ, List.drop_left' first.length_encode]
          exact ih (by simpa using hfield)

/-- A column lies within the row. -/
theorem columnOffset_add_le {types : List FieldType} {column : Nat} {type : FieldType}
    (htype : types[column]? = some type) :
    columnOffset types column + type.width
      ≤ types.foldr (fun type size => type.width + size) 0 := by
  induction types generalizing column with
  | nil => exact absurd htype (by simp)
  | cons first types ih =>
      cases column with
      | zero =>
          obtain rfl : first = type := by simpa using htype
          simp [columnOffset]
      | succ column =>
          have hcolumn : types[column]? = some type := by simpa using htype
          have hrest := ih hcolumn
          simp only [columnOffset, List.take_succ_cons, List.map_cons, List.sum_cons,
            List.foldr_cons] at hrest ⊢
          omega

theorem length_columnCell {types : List FieldType} {cell : Bytes}
    (hcell : cell.length = types.foldr (fun type size => type.width + size) 0) {column : Nat}
    {type : FieldType} (htype : types[column]? = some type) :
    (columnCell types column type cell).length = type.width := by
  have hinside := columnOffset_add_le htype
  rw [columnCell, Bytes.slice, List.length_take, List.length_drop]
  omega

/-! ## Cells that are written again -/

/-- The bytes of a column with its value only: behind a text there are zeros. -/
def FieldType.cleared : FieldType → Bytes → Bytes
  | .int, cell => cell
  | .string, cell =>
    let length := Bytes.toNat (cell.take 4)
    cell.take (4 + length) ++ Bytes.zeros (textCapacity - length)

/-- A field that was read from a column is written as this column, cleared. -/
theorem Field.encode_of_decode? {type : FieldType} {cell : Bytes} {field : Field}
    (hlength : cell.length = type.width) (hread : decode? type cell = some field) :
    field.encode = type.cleared cell := by
  have hstored := (stored_of_decode? hread).2
  cases type with
  | int =>
      have hwidth : cell.length = 4 := hlength
      have hbytes := Bytes.ofNat_toNat cell
      have hsmall := Bytes.toNat_lt cell
      rw [hwidth] at hbytes hsmall
      obtain rfl := Option.some.inj hread
      rw [List.take_of_length_le (by omega), encode, FieldType.cleared, UInt32.toUInt32_toInt32,
        UInt32.toNat_ofNat_of_lt' hsmall, hbytes]
  | string =>
      have hwidth : cell.length = 4 + textCapacity := hlength
      simp only [decode?] at hread
      split at hread
      · exact absurd hread (by simp)
      · rename_i hfits
        obtain ⟨text, htext, rfl⟩ := Option.map_eq_some_iff.mp hread
        have hwhole : storedText text = text := by simpa [stored, ofText] using hstored
        have hcontent := utf8_of_ofUtf8? htext
        have hfront := Bytes.ofNat_toNat (cell.take 4)
        have hfour : (cell.take 4).length = 4 := by
          rw [List.length_take]
          omega
        rw [hfour] at hfront
        -- The text takes as many bytes as the number in front of it says.
        have htaken : (Text.utf8 text).length = Bytes.toNat (cell.take 4) := by
          rw [hcontent, Bytes.slice, List.length_take, List.length_drop]
          omega
        simp only [encode, hwhole, htaken, FieldType.cleared, hfront]
        rw [hcontent, Bytes.slice, List.take_add]

/-! ## Slots of a page -/

theorem getElem?_blocks {α : Type} (size : Nat) {count index : Nat} (data : List α)
    (hindex : index < count) :
    (blocks size count data)[index]? = some ((data.drop (index * size)).take size) := by
  induction count generalizing data index with
  | zero => exact absurd hindex (Nat.not_lt_zero _)
  | succ count ih =>
      rw [blocks_succ]
      cases index with
      | zero => simp
      | succ index =>
          rw [List.getElem?_cons_succ, ih _ (Nat.lt_of_succ_lt_succ hindex), List.drop_drop,
            Nat.succ_mul, Nat.add_comm size]

namespace Page

/-- The bytes of one slot of a page. -/
def cell (schema : Schema) (data : Bytes) (slot : Nat) : Bytes :=
  let header := Geometry.headerSize (Geometry.slotCount data.length schema.rowSize)
  Bytes.slice (header + slot * schema.rowSize) schema.rowSize data

section

variable {address : PageAddress} {schema : Schema} {data : Bytes} {slot : Nat}

/-- A slot lies within the page. -/
theorem length_cell (hslot : slot < Geometry.slotCount data.length schema.rowSize) :
    (cell schema data slot).length = schema.rowSize := by
  have hroom := Geometry.header_add_slots_le data.length schema.rowSize
  have hbefore : (slot + 1) * schema.rowSize
      ≤ Geometry.slotCount data.length schema.rowSize * schema.rowSize :=
    Nat.mul_le_mul_right _ hslot
  rw [Nat.add_one_mul] at hbefore
  rw [cell, Bytes.slice, List.length_take, List.length_drop]
  omega

/-- A slot is read from its bit at the front of the page and from its bytes. -/
theorem getElem?_cells (hslot : slot < Geometry.slotCount data.length schema.rowSize) :
    (cells schema data)[slot]? = some (Bitmap.isSet data slot, cell schema data slot) := by
  have hroom := Geometry.header_add_slots_le data.length schema.rowSize
  have hinside :
      slot < 8 * Geometry.headerSize (Geometry.slotCount data.length schema.rowSize) := by
    unfold Geometry.headerSize
    omega
  have hbit : (headerBits schema data)[slot]? = some (Bitmap.isSet data slot) := by
    rw [headerBits, Bitmap.getElem?_unpack (by rw [List.length_take]; omega),
      Bitmap.isSet_take hinside]
  have hbytes := getElem?_blocks schema.rowSize
    (data.drop (Geometry.headerSize (Geometry.slotCount data.length schema.rowSize))) hslot
  rw [List.drop_drop] at hbytes
  exact List.getElem?_zip_eq_some.mpr ⟨hbit, hbytes⟩

theorem parseSlot_error_iff (address : PageAddress) (slot : Nat) {used : Bool} {bytes : Bytes} :
    (∃ error, parseSlot address schema used bytes slot = .error error) ↔
      used = true ∧ decodeFields? schema.types bytes = none := by
  unfold parseSlot
  cases used with
  | false => simp
  | true => cases decodeFields? schema.types bytes <;> simp

theorem getElem?_of_parseSlots {cells : List (Bool × Bytes)} {start index : Nat}
    {slots : List (Option Row)} {found : Bool × Bytes}
    (hread : parseSlots address schema cells start = .ok slots)
    (hcell : cells[index]? = some found) :
    ∃ content, slots[index]? = some content ∧
      parseSlot address schema found.1 found.2 (start + index) = .ok content := by
  induction cells generalizing start index slots with
  | nil => exact absurd hcell (by simp)
  | cons first cells ih =>
      obtain ⟨content, others, rfl, hfirst, hothers⟩ := of_parseSlots_cons hread
      cases index with
      | zero =>
          obtain rfl : first = found := by simpa using hcell
          exact ⟨content, rfl, hfirst⟩
      | succ index =>
          obtain ⟨later, hlater, hparsed⟩ := ih hothers (by simpa using hcell)
          exact ⟨later, by simpa using hlater, by rwa [Nat.add_right_comm] at hparsed⟩

/-- Slots are not read exactly if one of them is not. -/
theorem parseSlots_error_iff (address : PageAddress) (start : Nat) {cells : List (Bool × Bytes)} :
    (∃ error, parseSlots address schema cells start = .error error) ↔
      ∃ found ∈ cells, found.1 = true ∧ decodeFields? schema.types found.2 = none := by
  induction cells generalizing start with
  | nil => simp [parseSlots, pure, Except.pure]
  | cons first cells ih =>
      simp only [List.mem_cons, exists_eq_or_imp]
      rw [parseSlots_cons, ← ih (start + 1), ← parseSlot_error_iff address start]
      cases parseSlot address schema first.1 first.2 start with
      | error error => simp [Except.bind]
      | ok content => cases parseSlots address schema cells (start + 1) <;> simp [Except.bind]

/-- No slot fits into the page, or a slot in use has a text that cannot be read. -/
def Unreadable (schema : Schema) (data : Bytes) : Prop :=
  Geometry.slotCount data.length schema.rowSize = 0 ∨
    ∃ slot < Geometry.slotCount data.length schema.rowSize, Bitmap.isSet data slot = true ∧
      ∃ column, schema.types[column]? = some .string ∧
        Field.BadText (columnCell schema.types column .string (cell schema data slot))

/-- Reading fails exactly on bytes that are unreadable. -/
theorem parse_error_iff :
    (∃ error, parse address schema data = .error error) ↔ Unreadable schema data := by
  have hslots : (∃ found ∈ cells schema data, found.1 = true ∧
      decodeFields? schema.types found.2 = none) ↔
      ∃ slot < Geometry.slotCount data.length schema.rowSize, Bitmap.isSet data slot = true ∧
        decodeFields? schema.types (cell schema data slot) = none := by
    constructor
    · rintro ⟨found, hmem, hbad⟩
      obtain ⟨slot, hfound⟩ := List.getElem?_of_mem hmem
      have hslot : slot < Geometry.slotCount data.length schema.rowSize := by
        rw [← length_cells]
        exact (List.getElem?_eq_some_iff.mp hfound).1
      obtain rfl := Option.some.inj ((getElem?_cells hslot).symm.trans hfound)
      exact ⟨slot, hslot, hbad⟩
    · rintro ⟨slot, hslot, hbad⟩
      exact ⟨_, List.mem_of_getElem? (getElem?_cells hslot), hbad⟩
  simp only [Unreadable, ← decodeFields?_eq_none_iff, ← hslots]
  rw [parse_eq]
  split
  · rename_i hnone
    simp [hnone]
  · rename_i hsome
    rw [or_iff_right hsome, ← parseSlots_error_iff address 0]
    cases parseSlots address schema (cells schema data) 0 <;> simp [Except.map]

end

/-! ## The bytes of a page that was read -/

/-- What the bytes of a page are that was read from `data`. -/
structure Reencoded (data : Bytes) (page : Page) : Prop where
  length : page.bytes.length = data.length
  header : page.bytes.take page.headerSize = data.take page.headerSize
  /-- A slot in use has a row, with its address, and both bytes have the fields of this row. -/
  used : ∀ slot < page.slotCount, Bitmap.isSet data slot = true →
    ∃ row, page.row? slot = some row ∧ row.address = some ⟨page.address, slot⟩ ∧
      decodeFields? page.schema.types (cell page.schema data slot) = some row.fields ∧
      decodeFields? page.schema.types (cell page.schema page.bytes slot) = some row.fields
  free : ∀ slot < page.slotCount, Bitmap.isSet data slot = false →
    page.row? slot = none ∧ cell page.schema page.bytes slot = Bytes.zeros page.schema.rowSize
  /-- Each column of a slot in use keeps the bytes of its value; the rest of it is zeros. -/
  columns : ∀ slot < page.slotCount, Bitmap.isSet data slot = true →
    ∀ column type, page.schema.types[column]? = some type →
      columnCell page.schema.types column type (cell page.schema page.bytes slot) =
        type.cleared (columnCell page.schema.types column type (cell page.schema data slot))
  padding : page.bytes.drop (page.headerSize + page.slotCount * page.schema.rowSize) =
    Bytes.zeros (data.length - (page.headerSize + page.slotCount * page.schema.rowSize))

/-- Each slot of a page is written with its bit and with its bytes. -/
theorem written_slot {page : Page} (hsound : page.Sound) {slot : Nat} {content : Option Row}
    (hslot : page.slots[slot]? = some content) :
    Bitmap.isSet page.bytes slot = content.isSome ∧
      cell page.schema page.bytes slot = slotBytes page.schema content := by
  have hinside : slot < Geometry.slotCount page.bytes.length page.schema.rowSize := by
    rw [slotCount_bytes hsound]
    exact (List.getElem?_eq_some_iff.mp hslot).1
  have hwritten := getElem?_cells hinside
  rw [cells_bytes hsound, List.getElem?_map, hslot] at hwritten
  exact Prod.mk.inj (Option.some.inj hwritten.symm)

/-- What is behind the slots is written as zeros. -/
theorem drop_slots {page : Page} (hsound : page.Sound) :
    page.bytes.drop (page.headerSize + page.slotCount * page.schema.rowSize) =
      Bytes.zeros (page.size - (page.headerSize + page.slotCount * page.schema.rowSize)) := by
  have hbody : (page.header ++ page.slots.flatMap (slotBytes page.schema)).length
      = page.headerSize + page.slotCount * page.schema.rowSize := by
    rw [List.length_append, length_header hsound, length_body hsound, slotCount]
  simp only [bytes]
  rw [List.drop_left' hbody, hbody]

section

variable {address : PageAddress} {schema : Schema} {data : Bytes} {page : Page}

/-- What a page consists of that was read. -/
theorem parts_of_parse (hread : parse address schema data = .ok page) :
    Geometry.slotCount data.length schema.rowSize = page.slotCount ∧
      parseSlots address schema (cells schema data) 0 = .ok page.slots ∧
      page.spare = (headerBits schema data).drop page.slotCount := by
  have hfrom := readFrom_of_parse hread
  have hcount : Geometry.slotCount data.length schema.rowSize = page.slotCount := by
    rw [slotCount, hfrom.sound.count, hfrom.size, hfrom.schema]
  refine ⟨hcount, ?_⟩
  rw [← hcount]
  rw [parse_eq] at hread
  split at hread
  · exact absurd hread (by simp)
  · cases hslots : parseSlots address schema (cells schema data) 0 with
    | error error => simp [hslots, Except.map] at hread
    | ok slots =>
        simp only [hslots, Except.map, Except.ok.injEq] at hread
        subst hread
        exact ⟨rfl, rfl⟩

/-- A slot that was read holds what its bit and its bytes say. -/
theorem slot_of_parse (hread : parse address schema data = .ok page) {slot : Nat}
    (hslot : slot < page.slotCount) :
    ∃ content, page.slots[slot]? = some content ∧
      parseSlot address schema (Bitmap.isSet data slot) (cell schema data slot) slot
        = .ok content := by
  obtain ⟨hcount, hslots, -⟩ := parts_of_parse hread
  simpa using getElem?_of_parseSlots hslots (getElem?_cells (hcount ▸ hslot))

/-- A slot is in use exactly if its bit was set. -/
theorem isSome_of_parseSlot {used : Bool} {bytes : Bytes} {slot : Nat} {content : Option Row}
    (hparsed : parseSlot address schema used bytes slot = .ok content) :
    content.isSome = used := by
  unfold parseSlot at hparsed
  cases used with
  | false =>
      obtain rfl := Except.ok.inj hparsed
      rfl
  | true =>
      cases hfields : decodeFields? schema.types bytes with
      | none => simp [hfields] at hparsed
      | some fields =>
          simp only [hfields, if_true, Except.ok.injEq] at hparsed
          subst hparsed
          rfl

/-- The bits of the slots and the spare ones are written as they were read. -/
theorem header_of_parse (hread : parse address schema data = .ok page) :
    page.header = data.take page.headerSize := by
  obtain ⟨hcount, -, hspare⟩ := parts_of_parse hread
  have hbits : page.slots.map Option.isSome = (headerBits schema data).take page.slotCount := by
    apply List.ext_getElem?
    intro slot
    by_cases hslot : slot < page.slotCount
    · obtain ⟨content, hcontent, hparsed⟩ := slot_of_parse hread hslot
      have hcell := getElem?_cells (hcount ▸ hslot)
      rw [cells, List.getElem?_zip_eq_some] at hcell
      rw [List.getElem?_map, hcontent, List.getElem?_take_of_lt hslot, hcell.1,
        ← isSome_of_parseSlot hparsed]
      rfl
    · rw [List.getElem?_eq_none (by simpa [slotCount] using hslot),
        List.getElem?_eq_none (by rw [List.length_take]; omega)]
  rw [header, hbits, hspare, List.take_append_drop, headerBits, Bitmap.pack_unpack, hcount,
    headerSize]

/-- A slot in use has a row, which is read from its old bytes and gives the new ones. -/
theorem row_of_isSet (hread : parse address schema data = .ok page) {slot : Nat}
    (hslot : slot < page.slotCount) (hbit : Bitmap.isSet data slot = true) :
    ∃ row, page.row? slot = some row ∧ row.address = some ⟨page.address, slot⟩ ∧
      FieldsFit page.schema.types row.fields ∧
      decodeFields? page.schema.types (cell page.schema data slot) = some row.fields ∧
      cell page.schema page.bytes slot = row.encode := by
  have hfrom := readFrom_of_parse hread
  obtain ⟨content, hcontent, hparsed⟩ := slot_of_parse hread hslot
  have hsome := isSome_of_parseSlot hparsed
  rw [hbit] at hsome hparsed
  obtain ⟨row, rfl⟩ := Option.isSome_iff_exists.mp hsome
  have hrow := slots_of_row?.mpr hcontent
  obtain ⟨haddress, hfit⟩ := hfrom.sound.rows slot row hrow
  refine ⟨row, hrow, haddress, hfit, ?_, (written_slot hfrom.sound hcontent).2⟩
  rw [hfrom.schema]
  exact (row_of_parseSlot hparsed).2.2

/-- The bytes of a page that was read have what was read and nothing else. -/
theorem reencoded_of_parse (hread : parse address schema data = .ok page) :
    page.Reencoded data := by
  have hfrom := readFrom_of_parse hread
  have hsound := hfrom.sound
  refine ⟨?_, ?_, ?_, ?_, ?_, ?_⟩
  · rw [length_bytes hsound, hfrom.size]
  · rw [take_bytes hsound, header_of_parse hread]
  · intro slot hslot hbit
    obtain ⟨row, hrow, haddress, hfit, hbefore, hwritten⟩ := row_of_isSet hread hslot hbit
    refine ⟨row, hrow, haddress, hbefore, ?_⟩
    rw [hwritten]
    exact decodeFields?_encode hfit
  · intro slot hslot hbit
    obtain ⟨content, hcontent, hparsed⟩ := slot_of_parse hread hslot
    have hnone := isSome_of_parseSlot hparsed
    rw [hbit] at hnone
    obtain rfl := Option.not_isSome_iff_eq_none.mp (by simpa using hnone)
    exact ⟨by rw [row?, hcontent]; rfl, (written_slot hsound hcontent).2⟩
  · intro slot hslot hbit column type htype
    obtain ⟨row, -, -, hfit, hbefore, hwritten⟩ := row_of_isSet hread hslot hbit
    obtain ⟨field, hfield, hdecode⟩ := decode?_columnCell hbefore htype
    have hcolumn := columnCell_encode hfit.1 hfield
    rw [(Field.stored_of_decode? hdecode).1] at hcolumn
    rw [hwritten, Row.encode, hcolumn]
    refine Field.encode_of_decode? (length_columnCell ?_ htype) hdecode
    rw [hfrom.schema]
    exact length_cell (by rwa [(parts_of_parse hread).1])
  · rw [drop_slots hsound, hfrom.size]

end

theorem normal_snapshot (page : Page) : page.snapshot.normal = page.normal.snapshot := by
  rw [snapshot, snapshot, bytes_normal]
  rfl

/-- For all bytes: reading fails exactly if no slot fits or a text in a slot in use has a length
over the capacity or is not UTF-8.  A page that is read is written with the bitmap and the values
that were read and with zeros everywhere else, and these bytes are read as the same page and
written again as they are. -/
theorem parse_bytes_parse (address : PageAddress) (schema : Schema) (data : Bytes) :
    ((∃ error, parse address schema data = .error error) ↔ Unreadable schema data) ∧
      ∀ page, parse address schema data = .ok page →
        page.Reencoded data ∧
        ∃ again, parse address schema page.bytes = .ok again ∧ again.header = page.header ∧
          (∀ slot, again.row? slot = page.row? slot) ∧ again.bytes = page.bytes := by
  refine ⟨parse_error_iff, ?_⟩
  intro page hread
  have hfrom := readFrom_of_parse hread
  refine ⟨reencoded_of_parse hread, page.snapshot, ?_, rfl, fun _ => rfl, rfl⟩
  -- A page that was read is clean and has its own column names already.
  have hclean : page.withOwner none = page := by rw [withOwner, ← hfrom.owner]
  have hsame : page.snapshot.normal = page.snapshot := by rw [normal_snapshot, hfrom.normal]
  have hagain := parse_bytes hfrom.sound
  rwa [hfrom.address, hfrom.schema, hclean, hsame] at hagain

/-- Two slots of a number and a text, the first in use: the free slot, the bits behind the slots,
the rest of the text and the padding are not zeros. -/
theorem parse_bytes_parse_littered :
    let schema : Schema := ⟨[⟨.int, "number"⟩, ⟨.string, "text"⟩]⟩
    let data : Bytes := [0xfd, 0, 0, 0, 5, 0, 0, 0, 1, 97] ++ List.replicate 270 7
    ∃ page, parse ⟨1, 0⟩ schema data = .ok page ∧ page.rows.map Row.fields = [[.int 5, .string "a"]] ∧
      page.Reencoded data ∧
      ∃ again, parse ⟨1, 0⟩ schema page.bytes = .ok again ∧ again.header = page.header ∧
        (∀ slot, again.row? slot = page.row? slot) ∧ again.bytes = page.bytes := by
  intro schema data
  have hread : ∃ page, parse ⟨1, 0⟩ schema data = .ok page ∧
      page.rows.map Row.fields = [[.int 5, .string "a"]] := by
    have hrows : (parse ⟨1, 0⟩ schema data).toOption.map (·.rows.map Row.fields)
        = some [[.int 5, .string "a"]] := by decide +kernel
    obtain ⟨page, hpage, hfields⟩ := Option.map_eq_some_iff.mp hrows
    exact ⟨page, ok_of_toOption hpage, hfields⟩
  obtain ⟨page, hpage, hfields⟩ := hread
  exact ⟨page, hpage, hfields, (parse_bytes_parse ⟨1, 0⟩ schema data).2 page hpage⟩

end Page

end HeapStore
