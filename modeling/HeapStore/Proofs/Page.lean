import HeapStore.Page
import HeapStore.Proofs.Results
import HeapStore.Proofs.Row

/-!
# Pages read back

`Page.Sound` says what every page in memory satisfies: as many slots as its size allows, rows that
know where they lie and fit the schema, and the spare bits of whole bitmap bytes.  Reading gives
sound pages, inserting and deleting keep them sound, and `parse_bytes` says that the bytes of a
sound page are read as that page, clean and with these bytes as its former ones.

A row keeps the column names under which it was built until its page is read again.
`Page.normal` gives all rows the names of the page, so that a page and its reread copy are equal.
Under a compatible schema the bytes of a page hold the same rows (`parse_of_compatible`).
-/

namespace HeapStore

namespace Geometry

/-- Bitmap and slots fit the page together. -/
theorem header_add_slots_le (pageSize rowSize : Nat) :
    headerSize (slotCount pageSize rowSize) + slotCount pageSize rowSize * rowSize ≤ pageSize := by
  unfold headerSize slotCount
  split
  · simp
  · have hbits := Nat.div_mul_le_self (8 * pageSize) (8 * rowSize + 1)
    generalize 8 * pageSize / (8 * rowSize + 1) = count at hbits ⊢
    rw [Nat.mul_add, Nat.mul_left_comm] at hbits
    omega

end Geometry

namespace Page

/-! ## Normal pages -/

/-- The content of a slot with the column names of the page. -/
def normalSlot (schema : Schema) (slot : Option Row) : Option Row :=
  slot.map fun row => { row with schema := schema }

/-- The page with its own column names in all its rows. -/
def normal (page : Page) : Page :=
  { page with slots := page.slots.map (normalSlot page.schema) }

@[simp] theorem address_normal (page : Page) : page.normal.address = page.address := rfl

@[simp] theorem schema_normal (page : Page) : page.normal.schema = page.schema := rfl

@[simp] theorem size_normal (page : Page) : page.normal.size = page.size := rfl

@[simp] theorem owner_normal (page : Page) : page.normal.owner = page.owner := rfl

@[simp] theorem before_normal (page : Page) : page.normal.before = page.before := rfl

@[simp] theorem normalSlot_normalSlot (schema : Schema) (slot : Option Row) :
    normalSlot schema (normalSlot schema slot) = normalSlot schema slot := by
  cases slot <;> rfl

@[simp] theorem isSome_normalSlot (schema : Schema) (slot : Option Row) :
    (normalSlot schema slot).isSome = slot.isSome := by
  cases slot <;> rfl

@[simp] theorem isNone_normalSlot (schema : Schema) (slot : Option Row) :
    (normalSlot schema slot).isNone = slot.isNone := by
  cases slot <;> rfl

@[simp] theorem slotBytes_normalSlot (schema : Schema) (slot : Option Row) :
    slotBytes schema (normalSlot schema slot) = slotBytes schema slot := by
  cases slot <;> rfl

@[simp] theorem normal_normal (page : Page) : page.normal.normal = page.normal := by
  simp [normal, Function.comp_def]

@[simp] theorem bytes_normal (page : Page) : page.normal.bytes = page.bytes := by
  simp [normal, bytes, header, List.flatMap_map, Function.comp_def]

@[simp] theorem freeSlots_normal (page : Page) : page.normal.freeSlots = page.freeSlots := by
  simp [normal, freeSlots, List.countP_map, Function.comp_def]

theorem slots_of_row? {page : Page} {slot : Nat} {row : Row} :
    page.row? slot = some row ↔ page.slots[slot]? = some (some row) := by
  unfold row?
  cases page.slots[slot]? with
  | none => simp
  | some content => simp

theorem row?_normal (page : Page) (slot : Nat) :
    page.normal.row? slot = normalSlot page.schema (page.row? slot) := by
  simp only [row?, normal, List.getElem?_map]
  cases page.slots[slot]? with
  | none => rfl
  | some content => rfl

@[simp] theorem isUsed_normal (page : Page) (slot : Nat) :
    page.normal.isUsed slot = page.isUsed slot := by
  simp [isUsed, row?_normal]

/-! ## Sound pages -/

/-- What holds of every page in memory. -/
structure Sound (page : Page) : Prop where
  count : page.slots.length = Geometry.slotCount page.size page.schema.rowSize
  pos : 0 < page.slots.length
  spare : page.slots.length + page.spare.length = 8 * page.headerSize
  rows : ∀ slot row, page.row? slot = some row →
    row.address = some ⟨page.address, slot⟩ ∧ FieldsFit page.schema.types row.fields

theorem sound_normal {page : Page} (hsound : page.Sound) : page.normal.Sound := by
  have hlength : page.normal.slots.length = page.slots.length := by simp [normal]
  refine ⟨?_, ?_, ?_, ?_⟩
  · rw [hlength]
    exact hsound.count
  · rw [hlength]
    exact hsound.pos
  · have hspare := hsound.spare
    simp only [headerSize, slotCount, hlength] at hspare ⊢
    exact hspare
  · intro slot row hrow
    rw [row?_normal] at hrow
    obtain ⟨original, horiginal, rfl⟩ := Option.map_eq_some_iff.mp hrow
    exact hsound.rows slot original horiginal

theorem sound_of_normal {page : Page} (hnormal : page.normal.Sound) : page.Sound := by
  have hlength : page.normal.slots.length = page.slots.length := by simp [normal]
  refine ⟨?_, ?_, ?_, ?_⟩
  · rw [← hlength]
    exact hnormal.count
  · rw [← hlength]
    exact hnormal.pos
  · have hspare := hnormal.spare
    simp only [headerSize, slotCount, hlength] at hspare ⊢
    exact hspare
  · intro slot row hrow
    have h := hnormal.rows slot { row with schema := page.schema }
    rw [row?_normal, hrow] at h
    exact h rfl

theorem length_slotBytes {page : Page} (hsound : page.Sound) :
    ∀ content ∈ page.slots, (slotBytes page.schema content).length = page.schema.rowSize := by
  intro content hmem
  obtain ⟨slot, hslot⟩ := List.getElem?_of_mem hmem
  cases content with
  | none => simp [slotBytes]
  | some row =>
      have hrow : page.row? slot = some row := by simp [row?, hslot]
      exact length_encodeFields (hsound.rows slot row hrow).2

/-- The bits of a page fill whole bytes. -/
theorem length_bits {page : Page} (hsound : page.Sound) :
    (page.slots.map Option.isSome ++ page.spare).length = 8 * page.headerSize := by
  rw [List.length_append, List.length_map]
  exact hsound.spare

theorem length_header {page : Page} (hsound : page.Sound) :
    page.header.length = page.headerSize := by
  rw [header, Bitmap.length_pack, length_bits hsound]
  omega

theorem length_body {page : Page} (hsound : page.Sound) :
    (page.slots.flatMap (slotBytes page.schema)).length
      = page.slots.length * page.schema.rowSize :=
  length_flatMap_of_forall (length_slotBytes hsound)

/-- The bytes of a sound page fill it exactly. -/
theorem length_bytes {page : Page} (hsound : page.Sound) : page.bytes.length = page.size := by
  have hroom := Geometry.header_add_slots_le page.size page.schema.rowSize
  rw [← hsound.count] at hroom
  have hheader := length_header hsound
  have hbody := length_body hsound
  simp only [headerSize, slotCount] at hheader
  simp only [bytes, List.length_append, Bytes.length_zeros, hbody, hheader]
  omega

/-! ## Reading -/

/-- The rows in the slots with these bits and bytes, the first of them being slot `start`. -/
def parseSlots (address : PageAddress) (schema : Schema) (cells : List (Bool × Bytes))
    (start : Nat) : Except StoreError (List (Option Row)) :=
  (cells.zipIdx start).mapM fun ((used, cell), slot) => parseSlot address schema used cell slot

theorem parseSlots_cons (address : PageAddress) (schema : Schema) (cell : Bool × Bytes)
    (cells : List (Bool × Bytes)) (start : Nat) :
    parseSlots address schema (cell :: cells) start =
      (parseSlot address schema cell.1 cell.2 start).bind fun content =>
        (parseSlots address schema cells (start + 1)).bind fun others =>
          .ok (content :: others) := by
  rw [parseSlots, List.zipIdx_cons, List.mapM_cons]
  rfl

/-- Where slots are read, the first one is read, and the others are. -/
theorem of_parseSlots_cons {address : PageAddress} {schema : Schema} {cell : Bool × Bytes}
    {cells : List (Bool × Bytes)} {start : Nat} {slots : List (Option Row)}
    (hread : parseSlots address schema (cell :: cells) start = .ok slots) :
    ∃ content others, slots = content :: others ∧
      parseSlot address schema cell.1 cell.2 start = .ok content ∧
      parseSlots address schema cells (start + 1) = .ok others := by
  rw [parseSlots, List.zipIdx_cons] at hread
  obtain ⟨content, others, hfirst, hothers, hslots⟩ := mapM_cons_eq_ok_iff.mp hread
  exact ⟨content, others, hslots, hfirst, hothers⟩

/-- Only a cell with its bit set gives a row, and then from its bytes. -/
theorem row_of_parseSlot {address : PageAddress} {schema : Schema} {used : Bool} {cell : Bytes}
    {slot : Nat} {row : Row} (hread : parseSlot address schema used cell slot = .ok (some row)) :
    row.schema = schema ∧ row.address = some ⟨address, slot⟩ ∧
      decodeFields? schema.types cell = some row.fields := by
  unfold parseSlot at hread
  split at hread
  · split at hread
    · rename_i fields hfields
      obtain rfl := Option.some.inj (Except.ok.inj hread)
      exact ⟨rfl, rfl, hfields⟩
    · exact absurd hread (by simp)
  · exact absurd hread (by simp)

/-- The bits of the bitmap of a page. -/
def headerBits (schema : Schema) (data : Bytes) : List Bool :=
  Bitmap.unpack
    (data.take (Geometry.headerSize (Geometry.slotCount data.length schema.rowSize)))

/-- The slots of a page: the bit and the bytes of each. -/
def cells (schema : Schema) (data : Bytes) : List (Bool × Bytes) :=
  let count := Geometry.slotCount data.length schema.rowSize
  (headerBits schema data).zip
    (blocks schema.rowSize count (data.drop (Geometry.headerSize count)))

theorem parse_eq (address : PageAddress) (schema : Schema) (data : Bytes) :
    parse address schema data =
      if Geometry.slotCount data.length schema.rowSize = 0 then
        .error (.malformedPage address (.rowsDoNotFit schema.rowSize data.length))
      else
        (parseSlots address schema (cells schema data) 0).map fun slots =>
          ⟨address, schema, data.length, slots,
            (headerBits schema data).drop (Geometry.slotCount data.length schema.rowSize),
            none, data⟩ := by
  simp only [parse, parseSlots, cells, headerBits]
  split
  · rfl
  · generalize List.mapM (m := Except StoreError) _ _ = result
    cases result <;> rfl

theorem length_headerBits (schema : Schema) (data : Bytes) :
    (headerBits schema data).length
      = 8 * Geometry.headerSize (Geometry.slotCount data.length schema.rowSize) := by
  have hroom := Geometry.header_add_slots_le data.length schema.rowSize
  rw [headerBits, Bitmap.length_unpack, List.length_take]
  congr 1
  omega

theorem length_cells (schema : Schema) (data : Bytes) :
    (cells schema data).length = Geometry.slotCount data.length schema.rowSize := by
  simp only [cells, List.length_zip, length_headerBits, length_blocks, Geometry.headerSize]
  omega

theorem parseSlots_written {address : PageAddress} {schema : Schema} (slots : List (Option Row))
    (start : Nat)
    (hrows : ∀ (slot : Nat) (row : Row), slots[slot]? = some (some row) →
      row.address = some ⟨address, start + slot⟩ ∧ FieldsFit schema.types row.fields) :
    parseSlots address schema
        (slots.map fun content => (content.isSome, slotBytes schema content)) start =
      .ok (slots.map (normalSlot schema)) := by
  induction slots generalizing start with
  | nil => rfl
  | cons content slots ih =>
      -- The induction moves the number of the first slot along with the slots.
      have hrest := ih (start + 1) fun slot row hrow => by
        have h := hrows (slot + 1) row (by simpa using hrow)
        rwa [show start + 1 + slot = start + (slot + 1) by omega]
      have hfirst : parseSlot address schema content.isSome (slotBytes schema content) start
          = .ok (normalSlot schema content) := by
        cases content with
        | none => rfl
        | some row =>
            obtain ⟨hplace, hfit⟩ := hrows 0 row rfl
            have hfields := decodeFields?_encode hfit
            obtain ⟨rowSchema, fields, place⟩ := row
            simp only at hplace hfields
            simp [parseSlot, slotBytes, Row.encode, hfields, normalSlot, hplace]
      rw [List.map_cons, parseSlots_cons, hfirst, hrest]
      rfl

theorem rows_of_parseSlots {address : PageAddress} {schema : Schema}
    (cells : List (Bool × Bytes)) (start : Nat) {slots : List (Option Row)}
    (hread : parseSlots address schema cells start = .ok slots) :
    slots.length = cells.length ∧
      ∀ (slot : Nat) (row : Row), slots[slot]? = some (some row) →
        row.schema = schema ∧ row.address = some ⟨address, start + slot⟩ ∧
          FieldsFit schema.types row.fields := by
  induction cells generalizing start slots with
  | nil =>
      have hnil : slots = [] := (Except.ok.inj hread).symm
      subst hnil
      exact ⟨rfl, by simp⟩
  | cons cell cells ih =>
      obtain ⟨content, others, rfl, hfirst, hothers⟩ := of_parseSlots_cons hread
      obtain ⟨hlength, hrows⟩ := ih (start + 1) hothers
      refine ⟨by simp [hlength], ?_⟩
      intro slot row hrow
      cases slot with
      | succ slot =>
          have h := hrows slot row (by simpa using hrow)
          rwa [show start + 1 + slot = start + (slot + 1) by omega] at h
      | zero =>
          obtain rfl : content = some row := by simpa using hrow
          obtain ⟨hschema, hplace, hfields⟩ := row_of_parseSlot hfirst
          exact ⟨hschema, hplace, fit_of_decodeFields? hfields⟩

/-- What a page is that was read from `data`. -/
structure ReadFrom (address : PageAddress) (schema : Schema) (data : Bytes) (page : Page) :
    Prop where
  address : page.address = address
  schema : page.schema = schema
  size : page.size = data.length
  owner : page.owner = none
  before : page.before = data
  normal : page.normal = page
  sound : page.Sound

theorem readFrom_of_parse {address : PageAddress} {schema : Schema} {data : Bytes} {page : Page}
    (hread : parse address schema data = .ok page) : ReadFrom address schema data page := by
  rw [parse_eq] at hread
  split at hread
  · exact absurd hread (by simp)
  · rename_i hcount
    cases hslots : parseSlots address schema (cells schema data) 0 with
    | error error => simp [hslots, Except.map] at hread
    | ok slots =>
        simp only [hslots, Except.map, Except.ok.injEq] at hread
        subst hread
        obtain ⟨hlength, hrows⟩ := rows_of_parseSlots _ 0 hslots
        rw [length_cells] at hlength
        -- What is left: the rows have the column names of the page, and the page is sound.
        refine ⟨rfl, rfl, rfl, rfl, rfl, ?_, ⟨hlength, ?_, ?_, ?_⟩⟩
        · simp only [normal, Page.mk.injEq, true_and, and_true]
          apply List.ext_getElem?
          intro slot
          rw [List.getElem?_map]
          cases hcontent : slots[slot]? with
          | none => rfl
          | some content =>
              cases content with
              | none => rfl
              | some row =>
                  obtain ⟨hschema, -, -⟩ := hrows slot row hcontent
                  simp [normalSlot, ← hschema]
        · simp only [hlength]
          omega
        · simp only [headerSize, Page.slotCount, hlength, List.length_drop, length_headerBits,
            Geometry.headerSize]
          omega
        · intro slot row hrow
          obtain ⟨-, hplace, hfit⟩ := hrows slot row (slots_of_row?.mp hrow)
          exact ⟨by simpa using hplace, hfit⟩

theorem parseSlots_of_clear {address : PageAddress} {schema : Schema}
    (cells : List (Bool × Bytes)) (start : Nat) {slots : List (Option Row)}
    (hclear : ∀ cell ∈ cells, cell.1 = false)
    (hread : parseSlots address schema cells start = .ok slots) :
    ∀ content ∈ slots, content = none := by
  induction cells generalizing start slots with
  | nil =>
      have hnil : slots = [] := (Except.ok.inj hread).symm
      simp [hnil]
  | cons cell cells ih =>
      obtain ⟨content, others, rfl, hfirst, hothers⟩ := of_parseSlots_cons hread
      rw [hclear cell List.mem_cons_self] at hfirst
      obtain rfl := Except.ok.inj hfirst
      have hrest := ih (start + 1)
        (fun later hlater => hclear later (List.mem_cons_of_mem _ hlater)) hothers
      simpa using hrest

/-- In zeros no bit of the bitmap is set. -/
theorem headerBits_zeros (schema : Schema) (size : Nat) :
    ∀ bit ∈ headerBits schema (Bytes.zeros size), bit = false := by
  intro bit hbit
  obtain ⟨byte, hbyte, hflag⟩ := List.mem_flatMap.mp hbit
  have hzero : byte = 0 := List.eq_of_mem_replicate (List.mem_of_mem_take hbyte)
  have hclear : ∀ flag ∈ Bitmap.flags 0, flag = false := by decide
  rw [hzero] at hflag
  exact hclear bit hflag

/-- A page that is read from zeros has empty slots only, and keeps the spare bits. -/
theorem slots_of_zeros {address : PageAddress} {schema : Schema} {size : Nat} {page : Page}
    (hread : parse address schema (Bytes.zeros size) = .ok page) :
    (∀ content ∈ page.slots, content = none) ∧
      page.spare = (headerBits schema (Bytes.zeros size)).drop page.slots.length := by
  have hcount := (readFrom_of_parse hread).sound.count
  rw [(readFrom_of_parse hread).size, (readFrom_of_parse hread).schema] at hcount
  rw [parse_eq] at hread
  split at hread
  · exact absurd hread (by simp)
  · cases hslots : parseSlots address schema (cells schema (Bytes.zeros size)) 0 with
    | error error => simp [hslots, Except.map] at hread
    | ok slots =>
        simp only [hslots, Except.map, Except.ok.injEq] at hread
        subst hread
        have hclear : ∀ cell ∈ cells schema (Bytes.zeros size), cell.1 = false :=
          fun cell hcell => headerBits_zeros schema size _ (List.of_mem_zip hcell).1
        exact ⟨parseSlots_of_clear _ 0 hclear hslots, by rw [hcount]⟩

/-- A page that is read from zeros has no rows. -/
theorem row?_of_zeros {address : PageAddress} {schema : Schema} {size : Nat} {page : Page}
    (hread : parse address schema (Bytes.zeros size) = .ok page) (slot : Nat) :
    page.row? slot = none := by
  unfold row?
  cases hcontent : page.slots[slot]? with
  | none => rfl
  | some content =>
      rw [(slots_of_zeros hread).1 content (List.mem_of_getElem? hcontent)]
      rfl

/-- A page that is read from zeros is written as zeros. -/
theorem bytes_of_zeros {address : PageAddress} {schema : Schema} {size : Nat} {page : Page}
    (hread : parse address schema (Bytes.zeros size) = .ok page) :
    page.bytes = Bytes.zeros size := by
  have hsound := (readFrom_of_parse hread).sound
  have hsize : page.size = size := by
    rw [(readFrom_of_parse hread).size, Bytes.length_zeros]
  obtain ⟨hempty, hspare⟩ := slots_of_zeros hread
  -- the bits of the page are those that were read, so they are packed into zeros again
  have hbits : page.slots.map Option.isSome ++ page.spare
      = headerBits schema (Bytes.zeros size) := by
    have hclear : ∀ bit ∈ page.slots.map Option.isSome ++ page.spare, bit = false := by
      intro bit hbit
      rcases List.mem_append.mp hbit with hslot | hrest
      · obtain ⟨content, hcontent, rfl⟩ := List.mem_map.mp hslot
        rw [hempty content hcontent]
        rfl
      · rw [hspare] at hrest
        exact headerBits_zeros schema size bit (List.mem_of_mem_drop hrest)
    have hlength : (page.slots.map Option.isSome ++ page.spare).length
        = (headerBits schema (Bytes.zeros size)).length := by
      rw [length_headerBits, Bytes.length_zeros, ← hsize, ← (readFrom_of_parse hread).schema,
        ← hsound.count, List.length_append, List.length_map]
      exact hsound.spare
    rw [List.eq_replicate_of_mem hclear, hlength]
    exact (List.eq_replicate_of_mem (headerBits_zeros schema size)).symm
  have hheader : ∀ byte ∈ page.header, byte = 0 := by
    intro byte hbyte
    rw [header, hbits, headerBits, Bitmap.pack_unpack] at hbyte
    exact List.eq_of_mem_replicate (List.mem_of_mem_take hbyte)
  apply List.eq_replicate_iff.mpr
  refine ⟨(length_bytes hsound).trans hsize, ?_⟩
  intro byte hbyte
  simp only [bytes, List.mem_append, List.mem_flatMap] at hbyte
  rcases hbyte with (hbyte | ⟨content, hcontent, hbyte⟩) | hbyte
  · exact hheader byte hbyte
  · rw [hempty content hcontent] at hbyte
    exact List.eq_of_mem_replicate hbyte
  · exact List.eq_of_mem_replicate hbyte

/-! ## Writing -/

section

variable {page : Page} (hsound : page.Sound)
include hsound

/-- The number of slots depends on the sizes alone, so bitmap and rows are cut where they met. -/
theorem slotCount_bytes :
    Geometry.slotCount page.bytes.length page.schema.rowSize = page.slots.length := by
  rw [length_bytes hsound, hsound.count]

theorem take_bytes : page.bytes.take page.headerSize = page.header := by
  rw [bytes, List.append_assoc]
  exact List.take_left' (length_header hsound)

theorem drop_bytes :
    page.bytes.drop page.headerSize
      = page.slots.flatMap (slotBytes page.schema) ++ Bytes.zeros (page.size -
          (page.header ++ page.slots.flatMap (slotBytes page.schema)).length) := by
  rw [bytes, List.append_assoc]
  exact List.drop_left' (length_header hsound)

theorem unpack_header : Bitmap.unpack page.header = page.slots.map Option.isSome ++ page.spare :=
  Bitmap.unpack_pack _ _ (length_bits hsound)

theorem headerBits_bytes :
    headerBits page.schema page.bytes = page.slots.map Option.isSome ++ page.spare := by
  have htake := take_bytes hsound
  rw [headerSize, slotCount] at htake
  rw [headerBits, slotCount_bytes hsound, htake, unpack_header hsound]

/-- Each slot is written with its bit and its bytes. -/
theorem cells_bytes :
    cells page.schema page.bytes
      = page.slots.map fun content => (content.isSome, slotBytes page.schema content) := by
  have hdrop := drop_bytes hsound
  rw [headerSize, slotCount] at hdrop
  simp only [cells, slotCount_bytes hsound, headerBits_bytes hsound, hdrop]
  rw [blocks_flatMap _ _ _ _ (length_slotBytes hsound)]
  rw [← List.append_nil (page.slots.map (slotBytes page.schema)), List.zip_append (by simp)]
  simp [List.zip_map']

/-- The bytes of a sound page are read as that page: clean, and with these bytes as its former
ones. -/
theorem parse_bytes :
    parse page.address page.schema page.bytes = .ok ((page.withOwner none).snapshot).normal := by
  -- Each slot is read from the bytes that it was written as.
  have hslots : parseSlots page.address page.schema
      (page.slots.map fun content => (content.isSome, slotBytes page.schema content)) 0
        = .ok (page.slots.map (normalSlot page.schema)) := by
    apply parseSlots_written
    intro slot row hrow
    simpa using hsound.rows slot row (slots_of_row?.mpr hrow)
  have hspare : (page.slots.map Option.isSome ++ page.spare).drop page.slots.length
      = page.spare := List.drop_left' (by simp)
  rw [parse_eq, slotCount_bytes hsound, if_neg (Nat.ne_of_gt hsound.pos), cells_bytes hsound,
    hslots, headerBits_bytes hsound, hspare]
  simp only [Except.map, snapshot, withOwner, normal, length_bytes hsound]
  rfl

end

/-! ## Other schemas -/

section

variable {page : Page} {schema : Schema}

/-- The page with its rows under another schema. -/
def withSchema (page : Page) (schema : Schema) : Page :=
  { page with schema := schema }

theorem rowSize_of_compatible {other : Schema} (hcompatible : schema.compatible other = true) :
    schema.rowSize = other.rowSize := by
  have htypes : schema.types = other.types := by simpa [Schema.compatible] using hcompatible
  rw [Schema.rowSize, Schema.rowSize, htypes]

theorem bytes_withSchema (hcompatible : schema.compatible page.schema = true) :
    (page.withSchema schema).bytes = page.bytes := by
  have hslot : slotBytes schema = slotBytes page.schema := by
    funext slot
    cases slot with
    | none => simp only [slotBytes, rowSize_of_compatible hcompatible]
    | some row => rfl
  simp only [bytes, withSchema, header, hslot]

theorem sound_withSchema (hsound : page.Sound)
    (hcompatible : schema.compatible page.schema = true) : (page.withSchema schema).Sound := by
  have htypes : schema.types = page.schema.types := by simpa [Schema.compatible] using hcompatible
  refine ⟨?_, hsound.pos, hsound.spare, ?_⟩
  · show page.slots.length = Geometry.slotCount page.size schema.rowSize
    rw [rowSize_of_compatible hcompatible, hsound.count]
  · intro slot row hrow
    show _ ∧ FieldsFit schema.types row.fields
    rw [htypes]
    exact hsound.rows slot row hrow

/-- The bytes of a page have the same rows under every compatible schema. -/
theorem parse_of_compatible (hsound : page.Sound)
    (hcompatible : schema.compatible page.schema = true) :
    ∃ parsed, parse page.address schema page.bytes = .ok parsed ∧ parsed.schema = schema ∧
      parsed.rows = page.rows.map fun row => { row with schema := schema } := by
  have hparse := parse_bytes (sound_withSchema hsound hcompatible)
  rw [bytes_withSchema hcompatible] at hparse
  refine ⟨_, hparse, rfl, ?_⟩
  show (page.slots.map (normalSlot schema)).filterMap id = _
  rw [rows, List.filterMap_map, List.map_filterMap]
  rfl

end

/-! ## Changing -/

theorem sound_withOwner {page : Page} (hsound : page.Sound) (owner : Option TransactionId) :
    (page.withOwner owner).Sound :=
  ⟨hsound.count, hsound.pos, hsound.spare, hsound.rows⟩

theorem sound_snapshot {page : Page} (hsound : page.Sound) : page.snapshot.Sound :=
  ⟨hsound.count, hsound.pos, hsound.spare, hsound.rows⟩

/-- The page with other content in one slot. -/
def setSlot (page : Page) (slot : Nat) (content : Option Row) : Page :=
  { page with slots := page.slots.set slot content }

/-- A row at the place where it is stored. -/
def placed (row : Row) (place : RecordAddress) : Row :=
  { row with address := some place }

theorem insert_eq (page : Page) (row : Row) :
    page.insert row =
      if row.schema.compatible page.schema then
        match page.slots.findIdx? Option.isNone with
        | none => .error (.pageFull page.address)
        | some slot =>
          .ok (placed row ⟨page.address, slot⟩,
            page.setSlot slot (some (placed row ⟨page.address, slot⟩)))
      else .error (.schemaMismatch page.address.table) := by
  unfold insert
  cases row.schema.compatible page.schema with
  | false => rfl
  | true => cases page.slots.findIdx? Option.isNone <;> rfl

theorem delete_eq (page : Page) (row : Row) :
    page.delete row =
      match row.address with
      | none => .error .missingAddress
      | some place =>
        if place.page ≠ page.address then .error (.rowNotOnPage page.address)
        else if page.isUsed place.slot then .ok (page.setSlot place.slot none)
        else .error (.slotEmpty page.address place.slot) := by
  unfold delete
  cases row.address with
  | none => rfl
  | some place =>
      by_cases hpage : place.page = page.address
      · cases hused : page.isUsed place.slot <;> simp [hpage, hused] <;> rfl
      · simp [hpage]
        rfl

theorem normal_setSlot (page : Page) (slot : Nat) (content : Option Row) :
    (page.normal.setSlot slot content).normal = (page.setSlot slot content).normal := by
  simp [normal, setSlot, List.map_set, Function.comp_def]

theorem findIdx?_normal (page : Page) :
    page.normal.slots.findIdx? Option.isNone = page.slots.findIdx? Option.isNone := by
  simp [normal, List.findIdx?_map, Function.comp_def]

theorem row?_setSlot {page : Page} {slot : Nat} (hslot : slot < page.slots.length)
    (content : Option Row) (other : Nat) :
    (page.setSlot slot content).row? other = if other = slot then content else page.row? other := by
  simp only [row?, setSlot, List.getElem?_set]
  by_cases hother : other = slot
  · subst hother
    simp [hslot]
  · simp [hother, Ne.symm hother]

theorem lt_of_isUsed {page : Page} {slot : Nat} (hused : page.isUsed slot) :
    slot < page.slots.length := by
  obtain ⟨row, hrow⟩ := Option.isSome_iff_exists.mp hused
  exact (List.getElem?_eq_some_iff.mp (slots_of_row?.mp hrow)).1

theorem sound_setSlot {page : Page} (hsound : page.Sound) {slot : Nat}
    (hslot : slot < page.slots.length) {content : Option Row}
    (hcontent : ∀ row, content = some row →
      row.address = some ⟨page.address, slot⟩ ∧ FieldsFit page.schema.types row.fields) :
    (page.setSlot slot content).Sound := by
  have hlength : (page.setSlot slot content).slots.length = page.slots.length := by
    simp [setSlot]
  refine ⟨?_, ?_, ?_, ?_⟩
  · rw [hlength]
    exact hsound.count
  · rw [hlength]
    exact hsound.pos
  · have hspare := hsound.spare
    simp only [headerSize, slotCount, hlength] at hspare ⊢
    exact hspare
  · intro other row hrow
    rw [row?_setSlot hslot] at hrow
    split at hrow
    · rename_i hother
      subst hother
      exact hcontent row hrow
    · exact hsound.rows other row hrow

/-- An insertion that succeeds takes the first empty slot. -/
theorem found_of_insert {page fuller : Page} {row stored : Row}
    (hinsert : page.insert row = .ok (stored, fuller)) :
    row.schema.compatible page.schema = true ∧
      ∃ slot, page.slots.findIdx? Option.isNone = some slot ∧
        stored = placed row ⟨page.address, slot⟩ ∧ fuller = page.setSlot slot (some stored) := by
  rw [insert_eq] at hinsert
  split at hinsert
  · rename_i hcompatible
    cases hfind : page.slots.findIdx? Option.isNone with
    | none => simp [hfind] at hinsert
    | some slot =>
        simp only [hfind, Except.ok.injEq, Prod.mk.injEq] at hinsert
        obtain ⟨rfl, rfl⟩ := hinsert
        exact ⟨hcompatible, slot, rfl, rfl, rfl⟩
  · exact absurd hinsert (by simp)

/-- The row went to a free slot of the page, and the page has it there. -/
structure Inserted (page : Page) (row : Row) (place : RecordAddress) (fuller : Page) : Prop where
  compatible : row.schema.compatible page.schema = true
  onPage : place.page = page.address
  inside : place.slot < page.slots.length
  free : page.row? place.slot = none
  result : fuller = page.setSlot place.slot (some (placed row place))

theorem inserted_of_insert {page fuller : Page} {row stored : Row}
    (hinsert : page.insert row = .ok (stored, fuller)) :
    ∃ place, stored = placed row place ∧ Inserted page row place fuller := by
  obtain ⟨hcompatible, slot, hfind, rfl, rfl⟩ := found_of_insert hinsert
  -- The first free slot is inside the page and has no row.
  obtain ⟨hslot, hnone, -⟩ := List.findIdx?_eq_some_iff_getElem.mp hfind
  refine ⟨⟨page.address, slot⟩, rfl, hcompatible, rfl, hslot, ?_, rfl⟩
  have hcontent : page.slots[slot]? = some page.slots[slot] := List.getElem?_eq_getElem hslot
  simp only [row?, hcontent]
  simpa using hnone

theorem Inserted.sound {page fuller : Page} {row : Row} {place : RecordAddress}
    (hinserted : Inserted page row place fuller) (hsound : page.Sound) (hvalid : row.Valid) :
    fuller.Sound := by
  have htypes : row.schema.types = page.schema.types := by
    simpa [Schema.compatible] using hinserted.compatible
  rw [hinserted.result]
  apply sound_setSlot hsound hinserted.inside
  rintro row' hrow
  obtain rfl := Option.some.inj hrow
  constructor
  · rw [← hinserted.onPage]
    rfl
  · rw [← htypes]
    exact hvalid

theorem sound_of_insert {page fuller : Page} {row stored : Row} (hsound : page.Sound)
    (hvalid : row.Valid) (hinsert : page.insert row = .ok (stored, fuller)) : fuller.Sound := by
  obtain ⟨place, -, hinserted⟩ := inserted_of_insert hinsert
  exact hinserted.sound hsound hvalid

/-- The row's place is a slot in use on the page, and the page no longer has it. -/
structure Deleted (page : Page) (row : Row) (place : RecordAddress) (fewer : Page) : Prop where
  address : row.address = some place
  onPage : place.page = page.address
  used : page.isUsed place.slot = true
  result : fewer = page.setSlot place.slot none

theorem deleted_of_delete {page fewer : Page} {row : Row}
    (hdelete : page.delete row = .ok fewer) : ∃ place, Deleted page row place fewer := by
  rw [delete_eq] at hdelete
  cases haddress : row.address with
  | none => simp [haddress] at hdelete
  | some place =>
      simp only [haddress] at hdelete
      split at hdelete
      · exact absurd hdelete (by simp)
      · rename_i hpage
        split at hdelete
        · rename_i hused
          exact ⟨place, haddress, by simpa using hpage, hused, (Except.ok.inj hdelete).symm⟩
        · exact absurd hdelete (by simp)

theorem Deleted.sound {page fewer : Page} {row : Row} {place : RecordAddress}
    (hdeleted : Deleted page row place fewer) (hsound : page.Sound) : fewer.Sound := by
  rw [hdeleted.result]
  exact sound_setSlot hsound (lt_of_isUsed hdeleted.used) (by simp)

theorem sound_of_delete {page fewer : Page} {row : Row} (hsound : page.Sound)
    (hdelete : page.delete row = .ok fewer) : fewer.Sound := by
  obtain ⟨place, hdeleted⟩ := deleted_of_delete hdelete
  exact hdeleted.sound hsound

/-- Whether a row goes in, and where, does not depend on the column names of other rows. -/
theorem insert_normal (page : Page) (row : Row) :
    (page.normal.insert row).map (fun result => (result.1, result.2.normal)) =
      (page.insert row).map fun result => (result.1, result.2.normal) := by
  rw [insert_eq, insert_eq, findIdx?_normal, schema_normal, address_normal]
  split
  · cases page.slots.findIdx? Option.isNone with
    | none => rfl
    | some slot =>
        simp only [Except.map]
        rw [normal_setSlot]
  · rfl

theorem delete_normal (page : Page) (row : Row) :
    (page.normal.delete row).map normal = (page.delete row).map normal := by
  rw [delete_eq, delete_eq]
  cases row.address with
  | none => rfl
  | some place =>
      simp only [isUsed_normal, address_normal]
      split
      · rfl
      · split
        · simp only [Except.map]
          rw [normal_setSlot]
        · rfl

end Page

end HeapStore
