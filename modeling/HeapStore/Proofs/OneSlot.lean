import HeapStore.Proofs.Editing

/-!
# One slot at a time

An insertion and a deletion touch one bit of the bitmap and the bytes of one slot, and these never
overlap: the new bytes of the page are the old ones with the bit marked and the slot written over
(`Page.bytes_setSlot`).  So all other bits, also those behind the last slot, all other slots and the
padding stay (`Page.TouchedAt`).  Deleting what was just inserted gives the former bytes.

`insertInPlace` and `deleteInPlace` change a page and a row step by step, each step where the others
left them.  Both check everything before the first change, so that an error leaves page and row as
they were.
-/

namespace HeapStore

/-! ## Bytes that are written over -/

namespace Bytes

variable {offset : Nat} {patch content : Bytes}

/-- A splice leaves every byte in front of the patch and behind it. -/
theorem getElem?_splice {position : Nat} (hle : offset ≤ content.length)
    (hapart : position < offset ∨ offset + patch.length ≤ position) :
    (splice offset patch content)[position]? = content[position]? := by
  have hfront : (content.take offset).length = offset := by simp [hle]
  rw [splice_of_le hle]
  rcases hapart with hbefore | hbehind
  · rw [List.getElem?_append_left (by omega), List.getElem?_take_of_lt hbefore]
  · rw [List.getElem?_append_right (by omega), List.getElem?_append_right (by omega),
      List.getElem?_drop]
    congr 1
    omega

theorem take_splice {count : Nat} (hle : offset ≤ content.length) (hcount : count ≤ offset) :
    (splice offset patch content).take count = content.take count := by
  rw [splice_of_le hle, List.take_append_of_le_length (by simp; omega), List.take_take,
    Nat.min_eq_left hcount]

/-- Pieces behind each other, one of which is replaced by another one of its length. -/
theorem splice_between {front old rest : Bytes} (hoffset : front.length = offset)
    (hlength : old.length = patch.length) :
    splice offset patch (front ++ (old ++ rest)) = front ++ (patch ++ rest) := by
  have hle : offset ≤ (front ++ (old ++ rest)).length := by
    rw [List.length_append]
    omega
  rw [splice_of_le hle, List.take_left' hoffset, ← hlength, ← List.drop_drop,
    List.drop_left' hoffset, List.drop_left' rfl]

end Bytes

namespace Bitmap

variable {bytes rest : Bytes} {index : Nat}

theorem mark_append (hindex : index < 8 * bytes.length) (bit : Bool) :
    mark (bytes ++ rest) index bit = mark bytes index bit ++ rest := by
  have hinside : index / 8 < bytes.length := by omega
  apply List.ext_getElem?
  intro position
  rw [mark, mark, List.getElem?_modify]
  by_cases hposition : position < bytes.length
  · rw [List.getElem?_append_left hposition, List.getElem?_append_left (by simpa using hposition),
      List.getElem?_modify]
  · have hother : index / 8 ≠ position := by omega
    rw [List.getElem?_append_right (by omega), List.getElem?_append_right (by simp; omega)]
    simp [hother]

/-- Marking a bit changes no other byte. -/
theorem getElem?_mark {position : Nat} (hother : index / 8 ≠ position) (bit : Bool) :
    (mark bytes index bit)[position]? = bytes[position]? := by
  rw [mark, List.getElem?_modify_ne _ _ hother]

end Bitmap

/-! ## Changing in place -/

/-- Steps that change a page and a row in place.  What was changed before an error stays changed. -/
abbrev InPlace := ExceptT StoreError (StateM (MappedPage × Row)) Unit

/-- What the steps give, and the page and the row behind them. -/
def InPlace.on (steps : InPlace) (page : MappedPage) (row : Row) :
    Except StoreError Unit × MappedPage × Row :=
  (ExceptT.run steps).run (page, row)

/-- Marks the slot and then changes its content. -/
def setInPlace (slot : Nat) (content : Row → Option Row) : InPlace := do
  modify fun (page, row) =>
    ({ page with bitmap := Bitmap.mark page.bitmap slot (content row).isSome }, row)
  modify fun (page, row) => ({ page with slots := page.slots.set slot (content row) }, row)

/-- The steps of an insertion of this row into this page: the checks, the place of the row, and the
slot. -/
def insertSteps (page : MappedPage) (row : Row) : InPlace := do
  if !row.schema.compatible page.schema then
    throw (.schemaMismatch page.address.table)
  match (List.range page.slots.length).find? fun slot => !page.isUsed slot with
  | none => throw (.pageFull page.address)
  | some slot =>
    modify fun (page, row) => (page, Page.placed row ⟨page.address, slot⟩)
    setInPlace slot some

/-- The steps of a deletion of this row from this page: the checks, and the slot. -/
def deleteSteps (page : MappedPage) (row : Row) : InPlace := do
  match row.address with
  | none => throw .missingAddress
  | some place =>
    if place.page ≠ page.address then
      throw (.rowNotOnPage page.address)
    if !page.isUsed place.slot then
      throw (.slotEmpty page.address place.slot)
    setInPlace place.slot fun _ => none

/-- Puts the row into the first free slot of the page. -/
def insertInPlace : InPlace := do
  let (page, row) ← get
  insertSteps page row

/-- Clears the slot of the page that the row's address names. -/
def deleteInPlace : InPlace := do
  let (page, row) ← get
  deleteSteps page row

/-- An insertion in place gives what the insertion gives, and on an error nothing has changed. -/
theorem insertInPlace_on (page : MappedPage) (row : Row) :
    insertInPlace.on page row =
      match page.insert row with
      | .ok (stored, fuller) => (.ok (), fuller, stored)
      | .error error => (.error error, page, row) := by
  change (insertSteps page row).on page row = _
  unfold insertSteps MappedPage.insert
  cases row.schema.compatible page.schema with
  | false => rfl
  | true =>
      cases (List.range page.slots.length).find? fun slot => !page.isUsed slot with
      | none => rfl
      | some slot => rfl

/-- A deletion in place gives what the deletion gives, and on an error nothing has changed. -/
theorem deleteInPlace_on (page : MappedPage) (row : Row) :
    deleteInPlace.on page row =
      match page.delete row with
      | .ok fewer => (.ok (), fewer, row)
      | .error error => (.error error, page, row) := by
  change (deleteSteps page row).on page row = _
  unfold deleteSteps MappedPage.delete
  cases row.address with
  | none => rfl
  | some place =>
      by_cases hpage : place.page = page.address
      · cases hused : page.isUsed place.slot with
        | false =>
            simp only [hpage, hused, ne_eq, not_true, if_false]
            rfl
        | true =>
            simp only [hpage, hused, ne_eq, not_true, if_false]
            rfl
      · simp only [hpage, ne_eq, not_false_eq_true, if_true]
        rfl

namespace Page

/-! ## The bytes of a changed page -/

/-- Where a slot starts in the bytes of a page. -/
def slotOffset (page : Page) (slot : Nat) : Nat :=
  page.headerSize + slot * page.schema.rowSize

/-- The later page has other bytes at most in one bit of the bitmap and in one slot. -/
structure TouchedAt (page later : Page) (slot : Nat) (used : Bool) (content : Bytes) : Prop where
  inside : slot / 8 < page.headerSize ∧ page.headerSize ≤ page.slotOffset slot ∧
    page.slotOffset slot + page.schema.rowSize ≤ page.bytes.length
  bytes : later.bytes =
    Bytes.splice (page.slotOffset slot) content (Bitmap.mark page.bytes slot used)
  length : later.bytes.length = page.bytes.length
  bits : ∀ index < 8 * page.headerSize,
    Bitmap.isSet later.bytes index = if index = slot then used else Bitmap.isSet page.bytes index
  cell : Bytes.slice (page.slotOffset slot) page.schema.rowSize later.bytes = content
  others : ∀ position, page.headerSize ≤ position →
    (position < page.slotOffset slot ∨ page.slotOffset slot + page.schema.rowSize ≤ position) →
    later.bytes[position]? = page.bytes[position]?

section

variable {page : Page} (hsound : page.Sound) {slot : Nat} (hslot : slot < page.slots.length)
include hsound hslot

/-- The bit of a slot is in the bitmap, and the slot behind it on the page. -/
theorem slot_inside :
    slot / 8 < page.headerSize ∧ page.headerSize ≤ page.slotOffset slot ∧
      page.slotOffset slot + page.schema.rowSize ≤ page.bytes.length := by
  have hroom := Geometry.header_add_slots_le page.size page.schema.rowSize
  have hbefore : (slot + 1) * page.schema.rowSize ≤ page.slots.length * page.schema.rowSize :=
    Nat.mul_le_mul_right _ hslot
  rw [← hsound.count] at hroom
  rw [Nat.add_one_mul] at hbefore
  rw [length_bytes hsound]
  simp only [slotOffset, headerSize, slotCount, Geometry.headerSize] at hroom ⊢
  omega

/-- The bitmap of a changed page is the former one with the bit of the slot marked. -/
theorem header_setSlot (content : Option Row) :
    (page.setSlot slot content).header = Bitmap.mark page.header slot content.isSome :=
  (congrArg MappedPage.bitmap (setSlot_mapped hsound hslot content)).symm

/-- Whatever is in a slot, the slots in front of it and those behind it are written alike. -/
theorem exists_around :
    ∃ front back, front.length = slot * page.schema.rowSize ∧
      ∀ content, (slotBytes page.schema content).length = page.schema.rowSize →
        (page.setSlot slot content).bytes =
          (page.setSlot slot content).header ++ front ++
            (slotBytes page.schema content ++ back) := by
  have hwidths := length_slotBytes hsound
  have hfront : ((page.slots.take slot).flatMap (slotBytes page.schema)).length
      = slot * page.schema.rowSize := by
    rw [length_flatMap_of_forall fun content hmem => hwidths content (List.mem_of_mem_take hmem),
      List.length_take, Nat.min_eq_left (Nat.le_of_lt hslot)]
  refine ⟨(page.slots.take slot).flatMap (slotBytes page.schema),
    (page.slots.drop (slot + 1)).flatMap (slotBytes page.schema) ++
      Bytes.zeros (page.size - (page.header ++
        page.slots.flatMap (slotBytes page.schema)).length), hfront, ?_⟩
  intro content hcontent
  have hsplit : (page.setSlot slot content).slots
      = page.slots.take slot ++ content :: page.slots.drop (slot + 1) := by
    rw [setSlot, List.set_eq_take_append_cons_drop, if_pos hslot]
  -- The padding stays, since the slot is as wide as before.
  have hlength : ((page.setSlot slot content).header ++
      (page.setSlot slot content).slots.flatMap (slotBytes page.schema)).length
        = (page.header ++ page.slots.flatMap (slotBytes page.schema)).length := by
    rw [List.length_append, List.length_append, header_setSlot hsound hslot, Bitmap.length_mark,
      length_flatMap_of_forall hwidths, length_flatMap_of_forall]
    · rw [setSlot, List.length_set]
    · intro other hmem
      rcases List.mem_or_eq_of_mem_set hmem with hold | rfl
      · exact hwidths other hold
      · exact hcontent
  have hbytes : (page.setSlot slot content).bytes
      = (page.setSlot slot content).header ++
          (page.setSlot slot content).slots.flatMap (slotBytes page.schema) ++
        Bytes.zeros (page.size - (page.header ++
          page.slots.flatMap (slotBytes page.schema)).length) := by
    rw [← hlength]
    rfl
  rw [hbytes, hsplit]
  simp only [List.flatMap_append, List.flatMap_cons, List.append_assoc]

/-- The new bytes are the old ones with the bit marked and the slot written over. -/
theorem bytes_setSlot {content : Option Row}
    (hcontent : (slotBytes page.schema content).length = page.schema.rowSize) :
    (page.setSlot slot content).bytes =
      Bytes.splice (page.slotOffset slot) (slotBytes page.schema content)
        (Bitmap.mark page.bytes slot content.isSome) := by
  obtain ⟨front, back, hfront, haround⟩ := exists_around hsound hslot
  have hold := length_slotBytes hsound _ (List.getElem_mem hslot)
  have hsame : page.setSlot slot page.slots[slot] = page := by
    rw [setSlot, List.set_getElem_self]
  have hbefore := haround page.slots[slot] hold
  rw [hsame, List.append_assoc] at hbefore
  have hheader := length_header hsound
  have hbit : slot < 8 * page.header.length := by
    have hinside := (slot_inside hsound hslot).1
    omega
  rw [haround content hcontent, header_setSlot hsound hslot, hbefore, Bitmap.mark_append hbit,
    ← List.append_assoc _ front]
  refine (Bytes.splice_between ?_ (hold.trans hcontent.symm)).symm
  rw [List.length_append, Bitmap.length_mark, hheader, hfront, slotOffset]

/-- Changing the content of a slot touches its bit and its bytes. -/
theorem touchedAt_setSlot {content : Option Row}
    (hcontent : (slotBytes page.schema content).length = page.schema.rowSize) :
    page.TouchedAt (page.setSlot slot content) slot content.isSome
      (slotBytes page.schema content) := by
  obtain ⟨hbyte, hfront, hend⟩ := slot_inside hsound hslot
  have hbytes := bytes_setSlot hsound hslot hcontent
  have hmarked := Bitmap.length_mark page.bytes slot content.isSome
  have hinside : page.slotOffset slot ≤ (Bitmap.mark page.bytes slot content.isSome).length := by
    omega
  refine ⟨⟨hbyte, hfront, hend⟩, hbytes, ?_, ?_, ?_, ?_⟩
  · rw [hbytes, Bytes.length_splice]
    omega
  · intro index hindex
    rw [← Bitmap.isSet_take hindex, hbytes, Bytes.take_splice hinside hfront,
      Bitmap.isSet_take hindex, Bitmap.isSet_mark (by omega)]
  · rw [hbytes, ← hcontent]
    exact Bytes.slice_splice_same hinside
  · intro position hposition hapart
    rw [hbytes, Bytes.getElem?_splice hinside (by omega),
      Bitmap.getElem?_mark (by omega)]

end

/-! ## Inserting and deleting -/

/-- The bit of the slot is clear, and the bits of all slots in front of it are set. -/
structure LowestFree (page : Page) (slot : Nat) : Prop where
  inside : slot < page.slotCount
  free : Bitmap.isSet page.bytes slot = false
  least : ∀ earlier < slot, Bitmap.isSet page.bytes earlier = true

/-- When an insertion succeeds, and what it does to page and row. -/
structure InsertsOneSlot (page : Page) (row : Row) : Prop where
  succeeds : (∃ result, page.insert row = .ok result) ↔
    row.schema.compatible page.schema = true ∧
      ∃ slot < page.slotCount, Bitmap.isSet page.bytes slot = false
  touches : ∀ stored fuller, page.insert row = .ok (stored, fuller) →
    ∃ slot, page.LowestFree slot ∧ stored = placed row ⟨page.address, slot⟩ ∧
      row.encode.length = page.schema.rowSize ∧ page.TouchedAt fuller slot true row.encode
  undone : ∀ stored fuller, page.insert row = .ok (stored, fuller) → fuller.delete stored = .ok page
  inPlace : insertInPlace.on page.mapped row =
    match page.insert row with
    | .ok (stored, fuller) => (.ok (), fuller.mapped, stored)
    | .error error => (.error error, page.mapped, row)

/-- When a deletion succeeds, and what it does to page and row. -/
structure DeletesOneSlot (page : Page) (row : Row) : Prop where
  succeeds : (∃ fewer, page.delete row = .ok fewer) ↔
    ∃ place, row.address = some place ∧ place.page = page.address ∧
      place.slot < page.slotCount ∧ Bitmap.isSet page.bytes place.slot = true
  touches : ∀ fewer, page.delete row = .ok fewer →
    ∃ place, row.address = some place ∧
      page.TouchedAt fewer place.slot false (Bytes.zeros page.schema.rowSize)
  inPlace : deleteInPlace.on page.mapped row =
    match page.delete row with
    | .ok fewer => (.ok (), fewer.mapped, row)
    | .error error => (.error error, page.mapped, row)

theorem delete_of_isUsed {page : Page} {row : Row} {place : RecordAddress}
    (haddress : row.address = some place) (hpage : place.page = page.address)
    (hused : page.isUsed place.slot = true) :
    page.delete row = .ok (page.setSlot place.slot none) := by
  simp [delete_eq, haddress, hpage, hused]

section

variable {page : Page} {slot : Nat} (hslot : slot < page.slots.length)
include hslot

theorem isUsed_eq : page.isUsed slot = page.slots[slot].isSome := by
  simp [isUsed, row?, hslot]

/-- A row that was put into an empty slot can be deleted from it, and the page is as before. -/
theorem delete_placed (hempty : page.row? slot = none) (row : Row) :
    (page.setSlot slot (some (placed row ⟨page.address, slot⟩))).delete
      (placed row ⟨page.address, slot⟩) = .ok page := by
  have hused :
      (page.setSlot slot (some (placed row ⟨page.address, slot⟩))).isUsed slot = true := by
    rw [isUsed, row?_setSlot hslot, if_pos rfl]
    rfl
  have hcontent : page.slots[slot] = none := by
    simpa [row?, hslot] using hempty
  have hsame : (page.setSlot slot (some (placed row ⟨page.address, slot⟩))).setSlot slot none
      = page := by
    rw [setSlot, setSlot, List.set_set, ← hcontent, List.set_getElem_self]
  rw [delete_of_isUsed rfl rfl hused, hsame]

end

section

variable {page : Page} (hsound : page.Sound)
include hsound

/-- The bit of a slot, among the bytes of the page. -/
theorem isSet_bytes {slot : Nat} (hslot : slot < page.slotCount) :
    Bitmap.isSet page.bytes slot = page.isUsed slot := by
  have hbyte := (slot_inside hsound hslot).1
  rw [← Bitmap.isSet_take (by omega : slot < 8 * page.headerSize), take_bytes hsound,
    isSet_header hsound hslot]

/-- The slot that an insertion takes is the lowest free one. -/
theorem lowestFree_of_findIdx? {slot : Nat}
    (hfind : page.slots.findIdx? Option.isNone = some slot) : page.LowestFree slot := by
  obtain ⟨hslot, hfree, hbefore⟩ := List.findIdx?_eq_some_iff_getElem.mp hfind
  refine ⟨hslot, ?_, ?_⟩
  · rw [isSet_bytes hsound hslot, isUsed_eq hslot]
    simpa using hfree
  · intro earlier hearlier
    have hinside : earlier < page.slots.length := Nat.lt_trans hearlier hslot
    rw [isSet_bytes hsound hinside, isUsed_eq hinside]
    simpa [Option.isSome_iff_ne_none] using hbefore earlier hearlier

theorem insert_ok_iff (row : Row) :
    (∃ result, page.insert row = .ok result) ↔
      row.schema.compatible page.schema = true ∧
        ∃ slot < page.slotCount, Bitmap.isSet page.bytes slot = false := by
  constructor
  · rintro ⟨⟨stored, fuller⟩, hinsert⟩
    obtain ⟨hcompatible, slot, hfind, -⟩ := found_of_insert hinsert
    have hlowest := lowestFree_of_findIdx? hsound hfind
    exact ⟨hcompatible, slot, hlowest.inside, hlowest.free⟩
  · rintro ⟨hcompatible, slot, hslot, hfree⟩
    rw [insert_eq, if_pos hcompatible]
    cases hfind : page.slots.findIdx? Option.isNone with
    | some first => exact ⟨_, rfl⟩
    | none =>
        -- without an empty slot the bit of every slot is set
        have hfull := List.findIdx?_eq_none_iff.mp hfind _ (List.getElem_mem hslot)
        rw [isSet_bytes hsound hslot, isUsed_eq hslot] at hfree
        rw [← Option.not_isSome, hfree] at hfull
        exact absurd hfull (by simp)

theorem delete_ok_iff (row : Row) :
    (∃ fewer, page.delete row = .ok fewer) ↔
      ∃ place, row.address = some place ∧ place.page = page.address ∧
        place.slot < page.slotCount ∧ Bitmap.isSet page.bytes place.slot = true := by
  constructor
  · rintro ⟨fewer, hdelete⟩
    obtain ⟨place, hdeleted⟩ := deleted_of_delete hdelete
    have hslot : place.slot < page.slotCount := lt_of_isUsed hdeleted.used
    exact ⟨place, hdeleted.address, hdeleted.onPage, hslot,
      (isSet_bytes hsound hslot).trans hdeleted.used⟩
  · rintro ⟨place, haddress, hpage, hslot, hbit⟩
    rw [isSet_bytes hsound hslot] at hbit
    exact ⟨_, delete_of_isUsed haddress hpage hbit⟩

theorem insertsOneSlot {row : Row} (hvalid : row.Valid) : page.InsertsOneSlot row := by
  refine ⟨insert_ok_iff hsound row, ?_, ?_, ?_⟩
  · intro stored fuller hinsert
    obtain ⟨hcompatible, slot, hfind, rfl, rfl⟩ := found_of_insert hinsert
    have hlowest := lowestFree_of_findIdx? hsound hfind
    have htypes : row.schema.types = page.schema.types := by
      simpa [Schema.compatible] using hcompatible
    have hfit : FieldsFit page.schema.types row.fields := by
      rw [← htypes]
      exact hvalid
    have hlength : row.encode.length = page.schema.rowSize := length_encodeFields hfit
    exact ⟨slot, hlowest, rfl, hlength, touchedAt_setSlot hsound hlowest.inside hlength⟩
  · intro stored fuller hinsert
    obtain ⟨-, slot, hfind, rfl, rfl⟩ := found_of_insert hinsert
    have hlowest := lowestFree_of_findIdx? hsound hfind
    have hempty := (isSet_bytes hsound hlowest.inside).symm.trans hlowest.free
    exact delete_placed hlowest.inside (by simpa [isUsed] using hempty) row
  · rw [insertInPlace_on, insert_mapped hsound]
    cases page.insert row <;> rfl

theorem deletesOneSlot (row : Row) : page.DeletesOneSlot row := by
  refine ⟨delete_ok_iff hsound row, ?_, ?_⟩
  · intro fewer hdelete
    obtain ⟨place, hdeleted⟩ := deleted_of_delete hdelete
    rw [hdeleted.result]
    exact ⟨place, hdeleted.address, touchedAt_setSlot hsound (lt_of_isUsed hdeleted.used)
      (Bytes.length_zeros _)⟩
  · rw [deleteInPlace_on, delete_mapped hsound]
    cases page.delete row <;> rfl

end

/-- On every page that is reached from a page that was loaded, with every row that was obtained: an
insertion succeeds exactly if the schemas are compatible and a slot is free, takes the lowest one
and touches its bit and its bytes only; a deletion succeeds exactly if the address of the row names
a slot of the page that is in use, and clears its bit and its bytes only; deleting what was just
inserted gives the page back; and in place an error changes neither page nor row. -/
theorem edits_touch_one_slot {address : PageAddress} {schema : Schema} {data : Bytes} {page : Page}
    (hloaded : Loaded address schema data page) (edits : List PageEdit)
    (hrows : ∀ row, PageEdit.insert row ∈ edits → row.Obtained) {row : Row}
    (hobtained : row.Obtained) :
    page.mapped.edits edits = (page.edits edits).mapped ∧
      (page.edits edits).InsertsOneSlot row ∧ (page.edits edits).DeletesOneSlot row := by
  have hsound := (readFrom_of_parse hloaded.parse_eq).sound
  have hreached := sound_edits hrows hsound
  exact ⟨mapped_edits hrows hsound, insertsOneSlot hreached hobtained.valid,
    deletesOneSlot hreached row⟩

/-- Three slots, the second of them free: the bits behind the slots are set, and neither the free
slot nor the padding was zeros. -/
theorem edits_touch_one_slot_littered :
    let schema : Schema := ⟨[⟨.int, "number"⟩]⟩
    let data : Bytes := [0xfd, 0, 0, 0, 7, 9, 9, 9, 9, 0, 0, 0, 8, 5]
    ∃ page row stored fuller, parse ⟨1, 0⟩ schema data = .ok page ∧
      Row.ofFields? schema [.int 42] = some row ∧ page.insert row = .ok (stored, fuller) ∧
      stored.address = some ⟨⟨1, 0⟩, 1⟩ ∧
      page.TouchedAt fuller 1 true [0, 0, 0, 42] ∧
      fuller.bytes = [0xff, 0, 0, 0, 7, 0, 0, 0, 42, 0, 0, 0, 8, 0] ∧
      fuller.delete stored = .ok page ∧ fuller.TouchedAt page 1 false [0, 0, 0, 0] := by
  intro schema data
  have hrun : ((parse ⟨1, 0⟩ schema data).toOption.bind fun page =>
      (Row.ofFields? schema [.int 42]).bind fun row =>
        (page.insert row).toOption.map fun result =>
          (row.encode, result.1.address, result.2.bytes, page.schema))
        = some ([0, 0, 0, 42], some ⟨⟨1, 0⟩, 1⟩,
            [0xff, 0, 0, 0, 7, 0, 0, 0, 42, 0, 0, 0, 8, 0], schema) := by
    decide +kernel
  obtain ⟨page, hpage, hrest⟩ := Option.bind_eq_some_iff.mp hrun
  obtain ⟨row, hbuilt, hmap⟩ := Option.bind_eq_some_iff.mp hrest
  obtain ⟨⟨stored, fuller⟩, hinserted, hresult⟩ := Option.map_eq_some_iff.mp hmap
  simp only [Prod.mk.injEq] at hresult
  obtain ⟨hencode, haddress, hbytes, hschema⟩ := hresult
  have hread := ok_of_toOption hpage
  have hinsert := ok_of_toOption hinserted
  have hobtained : row.Obtained := .built hbuilt
  obtain ⟨-, hinserts, -⟩ := edits_touch_one_slot (.read hread) [] (by simp) hobtained
  obtain ⟨slot, -, hplaced, -, htouched⟩ := hinserts.touches stored fuller hinsert
  have hdelete : fuller.delete stored = .ok page := hinserts.undone stored fuller hinsert
  have hplace : some ⟨(page.edits []).address, slot⟩ = some (⟨⟨1, 0⟩, 1⟩ : RecordAddress) := by
    rw [← haddress, hplaced]
    rfl
  obtain rfl : slot = 1 := congrArg RecordAddress.slot (Option.some.inj hplace)
  rw [hencode] at htouched
  -- the deletion is made on the page behind the insertion
  have hreached : page.edits [.insert row] = fuller := by
    simp [edits, edit, hinsert]
  have hstored : stored.Obtained := by
    rw [hplaced]
    exact hobtained.moved _
  obtain ⟨-, -, hdeletes⟩ := edits_touch_one_slot (.read hread) [.insert row]
    (by simpa using hobtained) hstored
  rw [hreached] at hdeletes
  obtain ⟨place, hnamed, hcleared⟩ := hdeletes.touches page hdelete
  have hsame : place = ⟨⟨1, 0⟩, 1⟩ := Option.some.inj (hnamed.symm.trans haddress)
  have hwidth : fuller.schema.rowSize = 4 := by
    rw [← hreached, (edits_keeps page _).2.1, hschema]
    rfl
  rw [hsame, hwidth] at hcleared
  exact ⟨page, row, stored, fuller, hread, hbuilt, hinsert, haddress, htouched, hbytes, hdelete,
    hcleared⟩

end Page

end HeapStore
