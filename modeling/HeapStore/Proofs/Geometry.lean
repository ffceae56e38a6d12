import Mathlib.Order.Bounds.Defs
import HeapStore.Proofs.RowCodec

/-!
# The slots of a page are as many as fit

`Geometry.isGreatest_slotCount`: with one slot more, bitmap and slots would no longer fit the page
together.  The count comes from a division in bits, the size of the bitmap from a division in bytes
that is rounded up; `header_add_mul_le_iff` brings both to bits.  In machine words the two sizes are
the same numbers as long as the bits of the page and those of a slot can be counted in a word.

A page is read and written by this count alone, without a look at the bytes that are left.
`Page.read` goes along the bytes of a page and gives an `Overrun` where it asks for more than are
left, and `MappedPage.write` gives one where bitmap and slots take more than the page; no page does
either (`Page.read_eq_parse`, `Page.laidOut_of_sound`).
-/

namespace HeapStore

/-! ## How many slots fit -/

namespace Geometry

/-- Slots on a page, counted in machine words. -/
def slotCountInWords {width : Nat} (pageSize rowSize : BitVec width) : BitVec width :=
  if rowSize = 0 then 0 else pageSize * 8 / (rowSize * 8 + 1)

/-- Bytes of the bitmap, counted in machine words: one more than a byte for each eight slots if
some are left over. -/
def headerSizeInWords {width : Nat} (slots : BitVec width) : BitVec width :=
  if slots % 8 = 0 then slots / 8 else slots / 8 + 1

/-- Bitmap and slots fit a page exactly if their bits fit the bits of the page. -/
theorem header_add_mul_le_iff {count rowSize pageSize : Nat} :
    headerSize count + count * rowSize ≤ pageSize ↔ count * (8 * rowSize + 1) ≤ 8 * pageSize := by
  rw [Nat.mul_add, Nat.mul_one, Nat.mul_left_comm, headerSize]
  omega

/-- No count of slots above this one fits the page. -/
theorem isGreatest_slotCount (pageSize : Nat) {rowSize : Nat} (hrow : 0 < rowSize) :
    IsGreatest {count | headerSize count + count * rowSize ≤ pageSize}
      (slotCount pageSize rowSize) := by
  refine ⟨header_add_slots_le pageSize rowSize, ?_⟩
  intro count hfits
  rw [slotCount, if_neg (Nat.ne_of_gt hrow), Nat.le_div_iff_mul_le (Nat.succ_pos _)]
  exact header_add_mul_le_iff.mp hfits

/-- The bit of each slot is in the bitmap. -/
theorem div_lt_headerSize {count slot : Nat} (hslot : slot < count) :
    slot / 8 < headerSize count := by
  unfold headerSize
  omega

section

variable {width : Nat}

theorem toNat_eight_one (hwidth : 8 < 2 ^ width) :
    (8 : BitVec width).toNat = 8 ∧ (1 : BitVec width).toNat = 1 := by
  have hone : 1 < 2 ^ width := by omega
  exact ⟨by simp [Nat.mod_eq_of_lt hwidth], by simp [Nat.mod_eq_of_lt hone]⟩

theorem toNat_slotCountInWords {pageSize rowSize : BitVec width} (hrow : 0 < rowSize.toNat)
    (hpageBits : 8 * pageSize.toNat < 2 ^ width)
    (hrowBits : 8 * rowSize.toNat + 1 < 2 ^ width) :
    (slotCountInWords pageSize rowSize).toNat = slotCount pageSize.toNat rowSize.toNat := by
  obtain ⟨height, hone⟩ := toNat_eight_one (show 8 < 2 ^ width by omega)
  have hzero : rowSize ≠ 0 := by
    rintro rfl
    simp at hrow
  have hpage : (pageSize * 8).toNat = 8 * pageSize.toNat := by
    rw [BitVec.toNat_mul, height, Nat.mul_comm, Nat.mod_eq_of_lt hpageBits]
  have hslot : (rowSize * 8 + 1).toNat = 8 * rowSize.toNat + 1 := by
    rw [BitVec.toNat_add, BitVec.toNat_mul, height, hone, Nat.mul_comm,
      Nat.mod_eq_of_lt (a := 8 * rowSize.toNat) (by omega), Nat.mod_eq_of_lt hrowBits]
  rw [slotCountInWords, if_neg hzero, BitVec.toNat_udiv, hpage, hslot, slotCount,
    if_neg (Nat.ne_of_gt hrow)]

theorem toNat_headerSizeInWords {slots : BitVec width} (hwidth : 8 < 2 ^ width) :
    (headerSizeInWords slots).toNat = headerSize slots.toNat := by
  obtain ⟨height, hone⟩ := toNat_eight_one hwidth
  have hslots := slots.isLt
  have hfull : slots % 8 = 0 ↔ slots.toNat % 8 = 0 := by
    rw [← BitVec.toNat_inj, BitVec.toNat_umod, height]
    simp
  simp only [headerSizeInWords, headerSize, hfull]
  split
  · rw [BitVec.toNat_udiv, height]
    omega
  · rw [BitVec.toNat_add, BitVec.toNat_udiv, height, hone, Nat.mod_eq_of_lt (by omega)]
    omega

/-- What bitmap and slots take in machine words is what they take. -/
structure CountedInWords (pageSize rowSize : BitVec width) : Prop where
  count : (slotCountInWords pageSize rowSize).toNat = slotCount pageSize.toNat rowSize.toNat
  header : (headerSizeInWords (slotCountInWords pageSize rowSize)).toNat =
    headerSize (slotCount pageSize.toNat rowSize.toNat)
  taken : (headerSizeInWords (slotCountInWords pageSize rowSize) +
      slotCountInWords pageSize rowSize * rowSize).toNat =
    headerSize (slotCount pageSize.toNat rowSize.toNat) +
      slotCount pageSize.toNat rowSize.toNat * rowSize.toNat

theorem countedInWords {pageSize rowSize : BitVec width} (hrow : 0 < rowSize.toNat)
    (hpageBits : 8 * pageSize.toNat < 2 ^ width)
    (hrowBits : 8 * rowSize.toNat + 1 < 2 ^ width) : CountedInWords pageSize rowSize := by
  have hcount := toNat_slotCountInWords hrow hpageBits hrowBits
  have hheader : (headerSizeInWords (slotCountInWords pageSize rowSize)).toNat =
      headerSize (slotCount pageSize.toNat rowSize.toNat) := by
    rw [toNat_headerSizeInWords (by omega), hcount]
  refine ⟨hcount, hheader, ?_⟩
  -- The sum stays below the page size, and so do its parts.
  have hroom := header_add_slots_le pageSize.toNat rowSize.toNat
  have hpage := pageSize.isLt
  rw [BitVec.toNat_add, BitVec.toNat_mul, hcount, hheader,
    Nat.mod_eq_of_lt (a := slotCount pageSize.toNat rowSize.toNat * rowSize.toNat) (by omega),
    Nat.mod_eq_of_lt (by omega)]

end

end Geometry

/-! ## Reading within the bytes -/

/-- The bit at an index of a bitmap, if the bitmap reaches that far. -/
def Bitmap.bitWithin (bitmap : Bytes) (index : Nat) : Except Overrun Bool :=
  match bitmap[index / 8]? with
  | none => .error ⟨index / 8 + 1, bitmap.length⟩
  | some byte => .ok (byte.toNat.testBit (index % 8))

theorem Bitmap.bitWithin_of_lt {bitmap : Bytes} {index : Nat} (hindex : index / 8 < bitmap.length) :
    bitWithin bitmap index = .ok (isSet bitmap index) := by
  simp [bitWithin, isSet, List.getD_eq_getElem?_getD, hindex]

/-- The fields of a slot are in its own bytes. -/
theorem decodeFields?_take (types : List FieldType) (bytes : Bytes) :
    decodeFields? types (bytes.take (types.foldr (fun type size => type.width + size) 0)) =
      decodeFields? types bytes := by
  induction types generalizing bytes with
  | nil => rfl
  | cons type types ih =>
      simp only [List.foldr_cons, decodeFields?]
      rw [List.take_take, Nat.min_eq_left (Nat.le_add_right _ _), List.drop_take,
        Nat.add_sub_cancel_left, ih]

/-- A row within the bytes is the one that a slot of these bytes holds. -/
theorem Row.read_eq {schema : Schema} {bytes : Bytes} (hinside : schema.rowSize ≤ bytes.length) :
    Row.read schema bytes =
      .ok ((decodeFields? schema.types (bytes.take schema.rowSize)).map fun fields =>
        (⟨schema, fields, none⟩, bytes.drop schema.rowSize)) := by
  rw [Row.read, readFields_eq hinside, Schema.rowSize, decodeFields?_take]
  cases decodeFields? schema.types bytes <;> rfl

namespace Page

/-- Reads so many slots one after the other off the front, the first of them being slot `slot`: a
row where its bit is set, and else nothing but the step over its bytes. -/
def readSlots (address : PageAddress) (schema : Schema) (bitmap : Bytes) :
    (count slot : Nat) → Bytes → Except Overrun (Except StoreError (List (Option Row)))
  | 0, _, _ => return .ok []
  | count + 1, slot, bytes => do
    if ← Bitmap.bitWithin bitmap slot then
      match ← Row.read schema bytes with
      | none => return .error (.malformedPage address (.invalidRow slot))
      | some (row, rest) =>
        let others ← readSlots address schema bitmap count (slot + 1) rest
        return others.map (some (placed row ⟨address, slot⟩) :: ·)
    else
      let (_, rest) ← takeExactly schema.rowSize bytes
      let others ← readSlots address schema bitmap count (slot + 1) rest
      return others.map (none :: ·)

/-- Reads a page along its bytes: the bitmap, then slot by slot. -/
def read (address : PageAddress) (schema : Schema) (data : Bytes) :
    Except Overrun (Except StoreError Page) := do
  let count := Geometry.slotCount data.length schema.rowSize
  if count = 0 then
    return .error (.malformedPage address (.rowsDoNotFit schema.rowSize data.length))
  let (bitmap, rest) ← takeExactly (Geometry.headerSize count) data
  let slots ← readSlots address schema bitmap count 0 rest
  return slots.map fun slots =>
    ⟨address, schema, data.length, slots, (Bitmap.unpack bitmap).drop count, none, data⟩

section

variable {address : PageAddress} {schema : Schema}

/-- Slots whose bits and bytes are there are read from them. -/
theorem readSlots_eq {bitmap bytes : Bytes} {count slot : Nat}
    (hbits : slot + count ≤ 8 * bitmap.length) (hroom : count * schema.rowSize ≤ bytes.length) :
    readSlots address schema bitmap count slot bytes =
      .ok (parseSlots address schema
        (((Bitmap.unpack bitmap).drop slot).zip (blocks schema.rowSize count bytes)) slot) := by
  induction count generalizing slot bytes with
  | zero => simp [readSlots, parseSlots, pure, Except.pure]
  | succ count ih =>
      rw [Nat.succ_mul] at hroom
      have hinside : schema.rowSize ≤ bytes.length := by omega
      have hslot : slot < (Bitmap.unpack bitmap).length := by
        rw [Bitmap.length_unpack]
        omega
      have hbit : (Bitmap.unpack bitmap)[slot] = Bitmap.isSet bitmap slot := by
        have hlisted := List.getElem?_eq_getElem hslot
        rw [Bitmap.getElem?_unpack (by omega)] at hlisted
        exact (Option.some.inj hlisted).symm
      -- The first slot has the first bit and the first block, and the others are read behind it.
      have hrest := @ih (bytes.drop schema.rowSize) (slot + 1) (by omega) (by
        rw [List.length_drop]
        omega)
      rw [readSlots, Bitmap.bitWithin_of_lt (by omega), List.drop_eq_getElem_cons hslot, hbit,
        blocks_succ, List.zip_cons_cons, parseSlots_cons]
      simp only [bind, Except.bind]
      cases Bitmap.isSet bitmap slot with
      | false =>
          simp only [Bool.false_eq_true, if_false, takeExactly_of_le hinside, hrest]
          cases parseSlots address schema _ (slot + 1) <;> rfl
      | true =>
          simp only [if_true, Row.read_eq hinside]
          rw [parseSlot, if_pos rfl]
          cases decodeFields? schema.types (bytes.take schema.rowSize) with
          | none => rfl
          | some fields =>
              simp only [Option.map_some, hrest]
              cases parseSlots address schema _ (slot + 1) <;> rfl

/-- A page is read without a look past its end. -/
theorem read_eq_parse (address : PageAddress) (schema : Schema) (data : Bytes) :
    read address schema data = .ok (parse address schema data) := by
  have hroom := Geometry.header_add_slots_le data.length schema.rowSize
  have hbits : (data.take (Geometry.headerSize
      (Geometry.slotCount data.length schema.rowSize))).length =
        Geometry.headerSize (Geometry.slotCount data.length schema.rowSize) := by
    rw [List.length_take]
    omega
  rw [read, parse_eq]
  split
  · rfl
  · rw [takeExactly_of_le (by omega)]
    simp only [bind, Except.bind]
    rw [readSlots_eq
      (by rw [hbits, Geometry.headerSize]; omega)
      (by rw [List.length_drop]; omega)]
    rfl

end

end Page

/-! ## Writing within the page -/

/-- The bytes of the page; more than its size, if bitmap and slots take more than that. -/
def MappedPage.write (page : MappedPage) : Except Overrun Bytes :=
  let body := page.bitmap ++ page.slots.flatMap (Page.slotBytes page.schema)
  if page.size < body.length then .error ⟨body.length, page.size⟩
  else .ok (body ++ Bytes.zeros (page.size - body.length))

namespace Page

/-- What the parts of a page take of its bytes. -/
structure LaidOut (page : Page) : Prop where
  count : page.slotCount = Geometry.slotCount page.size page.schema.rowSize
  bitmap : page.mapped.bitmap.length = Geometry.headerSize page.slotCount
  marked : ∀ slot < page.slotCount, slot / 8 < page.mapped.bitmap.length
  slots : (page.slots.flatMap (slotBytes page.schema)).length =
    page.slotCount * page.schema.rowSize
  room : page.mapped.bitmap.length + page.slotCount * page.schema.rowSize ≤ page.size
  written : page.mapped.write = .ok page.bytes
  filled : page.bytes.length = page.size

theorem laidOut_of_sound {page : Page} (hsound : page.Sound) : page.LaidOut := by
  have hbitmap : page.mapped.bitmap.length = Geometry.headerSize page.slotCount :=
    length_header hsound
  have hslots := length_body hsound
  have hroom := Geometry.header_add_slots_le page.size page.schema.rowSize
  rw [← hsound.count] at hroom
  rw [← slotCount, ← hbitmap] at hroom
  refine ⟨hsound.count, hbitmap, ?_, hslots, hroom, ?_, length_bytes hsound⟩
  · intro slot hslot
    rw [hbitmap]
    exact Geometry.div_lt_headerSize hslot
  · have hbody :
        (page.header ++ page.slots.flatMap (slotBytes page.schema)).length ≤ page.size := by
      rw [List.length_append, hslots]
      exact hroom
    exact if_neg (Nat.not_lt.mpr hbody)

/-- As many slots as fit beside their bitmap are on a page, also where the sizes are counted in
machine words in which the bits of the page and those of a slot can be counted, and each of them has
its bit in the bitmap.  So every byte string is read under every schema without a look past its end,
and a page leaves room for its padding however it was changed since it was loaded. -/
theorem slots_fill_page {width : Nat} {pageSize rowSize : BitVec width} (hrow : 0 < rowSize.toNat)
    (hpageBits : 8 * pageSize.toNat < 2 ^ width)
    (hrowBits : 8 * rowSize.toNat + 1 < 2 ^ width) :
    Geometry.CountedInWords pageSize rowSize ∧
      IsGreatest {count | Geometry.headerSize count + count * rowSize.toNat ≤ pageSize.toNat}
        (Geometry.slotCount pageSize.toNat rowSize.toNat) ∧
      (∀ slot < Geometry.slotCount pageSize.toNat rowSize.toNat,
        slot / 8 < Geometry.headerSize (Geometry.slotCount pageSize.toNat rowSize.toNat)) ∧
      (∀ (address : PageAddress) (schema : Schema) (data : Bytes),
        read address schema data = .ok (parse address schema data)) ∧
      ∀ (address : PageAddress) (schema : Schema) (data : Bytes) (page : Page)
        (edits : List PageEdit), Loaded address schema data page →
        (∀ row, PageEdit.insert row ∈ edits → row.Obtained) →
        (page.edits edits).size = data.length ∧ (page.edits edits).LaidOut := by
  refine ⟨Geometry.countedInWords hrow hpageBits hrowBits, Geometry.isGreatest_slotCount _ hrow,
    fun slot hslot => Geometry.div_lt_headerSize hslot, read_eq_parse, ?_⟩
  intro address schema data page edits hloaded hrows
  have hfrom := readFrom_of_parse hloaded.parse_eq
  obtain ⟨-, -, hsize⟩ := edits_keeps page edits
  exact ⟨hsize.trans hfrom.size, laidOut_of_sound (sound_edits hrows hfrom.sound)⟩

/-- Rows of twenty bytes on a page of 4096 bytes: 203 slots and a bitmap of 26 bytes, also on an
empty page into which a row is put. -/
theorem slots_fill_page_of_twenty :
    let schema := Schema.ofTypes (List.replicate 5 .int)
    (Geometry.slotCountInWords (4096 : BitVec 64) 20).toNat = 203 ∧
      (Geometry.headerSizeInWords (Geometry.slotCountInWords (4096 : BitVec 64) 20)).toNat = 26 ∧
      IsGreatest {count | Geometry.headerSize count + count * 20 ≤ 4096} 203 ∧
      ∃ page row, empty ⟨1, 0⟩ schema 4096 = .ok page ∧
        Row.ofFields? schema (List.replicate 5 (.int 7)) = some row ∧
        (page.edits [.insert row]).LaidOut := by
  intro schema
  obtain ⟨⟨hcount, hheader, -⟩, hgreatest, -, -, hpages⟩ :=
    @slots_fill_page 64 4096 20 (by decide) (by decide) (by decide)
  have hempty : (empty ⟨1, 0⟩ schema 4096).toOption.isSome = true := by decide +kernel
  have hbuilt : (Row.ofFields? schema (List.replicate 5 (.int 7))).isSome = true := by
    decide +kernel
  obtain ⟨page, hpage⟩ := Option.isSome_iff_exists.mp hempty
  obtain ⟨row, hrow⟩ := Option.isSome_iff_exists.mp hbuilt
  refine ⟨hcount, hheader, hgreatest, page, row, ok_of_toOption hpage, hrow, ?_⟩
  refine (hpages _ _ _ _ [.insert row] (.empty (ok_of_toOption hpage)) ?_).2
  intro stored hstored
  have hsame : stored = row := by simpa using hstored
  exact hsame ▸ .built hrow

end Page

end HeapStore
