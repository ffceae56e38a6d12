import HeapStore.Proofs.Reencoding

/-!
# Pages through changes

A page in memory has no bitmap of its own: a slot is in use if a row is in it.  `MappedPage` is the
same page with the bitmap kept as bytes beside the slots: it looks for free slots in the bitmap,
checks the bit of a slot before it clears it, and marks a bit with each change.  Both read the same
pages (`MappedPage.parse_eq`) and go through the same changes (`mapped_edits`).

A page is changed by `PageEdit`s; a change that fails leaves the page as it was.  Along every run
of changes bitmap and slots agree, and the bytes of the page are read as that page again
(`Page.Consistent`).
-/

namespace HeapStore

/-! ## Pages with a bitmap -/

/-- A page whose bitmap is kept beside its slots. -/
structure MappedPage where
  address : PageAddress
  schema : Schema
  size : Nat
  bitmap : Bytes
  slots : List (Option Row)
  owner : Option TransactionId
  before : Bytes
  deriving DecidableEq

namespace MappedPage

/-- Reads the bitmap first, then each slot whose bit is set. -/
def parse (address : PageAddress) (schema : Schema) (data : Bytes) :
    Except StoreError MappedPage := do
  let count := Geometry.slotCount data.length schema.rowSize
  if count = 0 then
    throw (.malformedPage address (.rowsDoNotFit schema.rowSize data.length))
  let bitmap := data.take (Geometry.headerSize count)
  let slots ← (List.range count).mapM fun slot =>
    Page.parseSlot address schema (Bitmap.isSet bitmap slot) (Page.cell schema data slot) slot
  return ⟨address, schema, data.length, bitmap, slots, none, data⟩

/-- The slot exists and its bit is set. -/
def isUsed (page : MappedPage) (slot : Nat) : Bool :=
  slot < page.slots.length && Bitmap.isSet page.bitmap slot

/-- Number of slots whose bit is clear. -/
def freeSlots (page : MappedPage) : Nat :=
  (List.range page.slots.length).countP fun slot => !page.isUsed slot

/-- Number of the other slots. -/
def usedSlots (page : MappedPage) : Nat :=
  page.slots.length - page.freeSlots

/-- The page with other content in one slot, and its bit marked alike. -/
def setSlot (page : MappedPage) (slot : Nat) (content : Option Row) : MappedPage :=
  { page with
    bitmap := Bitmap.mark page.bitmap slot content.isSome
    slots := page.slots.set slot content }

/-- Puts a row into the first slot whose bit is clear. -/
def insert (page : MappedPage) (row : Row) : Except StoreError (Row × MappedPage) := do
  if !row.schema.compatible page.schema then
    throw (.schemaMismatch page.address.table)
  match (List.range page.slots.length).find? fun slot => !page.isUsed slot with
  | none => throw (.pageFull page.address)
  | some slot =>
    let placed := Page.placed row ⟨page.address, slot⟩
    return (placed, page.setSlot slot (some placed))

/-- Clears the slot that the row's address names. -/
def delete (page : MappedPage) (row : Row) : Except StoreError MappedPage := do
  match row.address with
  | none => throw .missingAddress
  | some place =>
    if place.page ≠ page.address then
      throw (.rowNotOnPage page.address)
    if !page.isUsed place.slot then
      throw (.slotEmpty page.address place.slot)
    return page.setSlot place.slot none

/-- The bitmap, the slots and the padding. -/
def bytes (page : MappedPage) : Bytes :=
  let body := page.bitmap ++ page.slots.flatMap (Page.slotBytes page.schema)
  body ++ Bytes.zeros (page.size - body.length)

end MappedPage

/-- The page with its bitmap beside it. -/
def Page.mapped (page : Page) : MappedPage :=
  ⟨page.address, page.schema, page.size, page.header, page.slots, page.owner, page.before⟩

@[simp] theorem Page.address_mapped (page : Page) : page.mapped.address = page.address := rfl

@[simp] theorem Page.schema_mapped (page : Page) : page.mapped.schema = page.schema := rfl

@[simp] theorem Page.bitmap_mapped (page : Page) : page.mapped.bitmap = page.header := rfl

@[simp] theorem Page.slots_mapped (page : Page) : page.mapped.slots = page.slots := rfl

/-! ## Changes -/

/-- A change of a page. -/
inductive PageEdit where
  | insert (row : Row)
  | delete (row : Row)
  | mark (owner : Option TransactionId)
  | snapshot
  deriving DecidableEq

/-- The page after a change. -/
def Page.edit (page : Page) : PageEdit → Page
  | .insert row =>
    match page.insert row with
    | .ok (_, fuller) => fuller
    | .error _ => page
  | .delete row =>
    match page.delete row with
    | .ok fewer => fewer
    | .error _ => page
  | .mark owner => page.withOwner owner
  | .snapshot => page.snapshot

/-- The page after changes, one after the other. -/
def Page.edits (page : Page) (edits : List PageEdit) : Page :=
  edits.foldl Page.edit page

/-- The page with its bitmap after a change. -/
def MappedPage.edit (page : MappedPage) : PageEdit → MappedPage
  | .insert row =>
    match page.insert row with
    | .ok (_, fuller) => fuller
    | .error _ => page
  | .delete row =>
    match page.delete row with
    | .ok fewer => fewer
    | .error _ => page
  | .mark owner => { page with owner := owner }
  | .snapshot => { page with before := page.bytes }

/-- The page with its bitmap after changes, one after the other. -/
def MappedPage.edits (page : MappedPage) (edits : List PageEdit) : MappedPage :=
  edits.foldl MappedPage.edit page

/-! ## Reading both ways -/

namespace Page

/-- Slots are read one by one, each by its bit in the bitmap. -/
theorem parseSlots_cells (address : PageAddress) (schema : Schema) (data : Bytes) :
    let count := Geometry.slotCount data.length schema.rowSize
    let bitmap := data.take (Geometry.headerSize count)
    parseSlots address schema (cells schema data) 0 =
      (List.range count).mapM fun slot =>
        parseSlot address schema (Bitmap.isSet bitmap slot) (cell schema data slot) slot := by
  intro count bitmap
  have hindexed : (cells schema data).zipIdx =
      (List.range count).map fun slot =>
        ((Bitmap.isSet bitmap slot, cell schema data slot), slot) := by
    apply List.ext_getElem?
    intro slot
    by_cases hslot : slot < count
    · have hbit : Bitmap.isSet bitmap slot = Bitmap.isSet data slot := by
        apply Bitmap.isSet_take
        unfold Geometry.headerSize
        omega
      simp [getElem?_cells hslot, hslot, hbit]
    · simp [hslot, count, length_cells]
  rw [parseSlots, hindexed, List.mapM_map]
  rfl

end Page

/-- The bitmap that is kept is the one that was read. -/
theorem MappedPage.parse_eq (address : PageAddress) (schema : Schema) (data : Bytes) :
    parse address schema data = (Page.parse address schema data).map Page.mapped := by
  have hslots := Page.parseSlots_cells address schema data
  rw [Page.parse_eq]
  simp only [parse, ← hslots]
  by_cases hcount : Geometry.slotCount data.length schema.rowSize = 0
  · rw [if_pos hcount, if_pos hcount]
    rfl
  · rw [if_neg hcount, if_neg hcount]
    cases hparsed : Page.parseSlots address schema (Page.cells schema data) 0 with
    | error error => rfl
    | ok slots =>
        have hread := Page.parse_eq address schema data
        rw [if_neg hcount, hparsed] at hread
        have hheader := Page.header_of_parse hread
        rw [Page.headerSize, ← (Page.parts_of_parse hread).1] at hheader
        simp only [Except.map, Page.mapped, hheader]
        rfl

/-! ## Changing both ways -/

namespace Page

/-- Slots are searched one by one. -/
theorem find?_row? (page : Page) :
    ((List.range page.slots.length).find? fun slot => (page.row? slot).isNone) =
      page.slots.findIdx? Option.isNone := by
  apply Option.ext
  intro slot
  have hcontent : ∀ place (hplace : place < page.slots.length),
      (page.row? place).isNone = page.slots[place].isNone := by
    intro place hplace
    simp [row?, hplace]
  rw [List.find?_range_eq_some, List.findIdx?_eq_some_iff_getElem]
  constructor
  · rintro ⟨hfree, hmem, hbefore⟩
    have hslot := List.mem_range.mp hmem
    refine ⟨hslot, by rwa [← hcontent slot hslot], ?_⟩
    intro earlier hearlier
    have hused := hbefore earlier hearlier
    rw [hcontent earlier (by omega)] at hused
    rw [Bool.not_eq_true]
    exact (Bool.not_eq_true' _).mp hused
  · rintro ⟨hslot, hfree, hbefore⟩
    refine ⟨by rwa [hcontent slot hslot], List.mem_range.mpr hslot, ?_⟩
    intro earlier hearlier
    rw [hcontent earlier (by omega), Bool.not_eq_true']
    exact Bool.not_eq_true _ ▸ hbefore earlier hearlier

section

variable {page : Page} (hsound : page.Sound)
include hsound

/-- The bit of a slot is set exactly if a row is in the slot. -/
theorem isSet_header {slot : Nat} (hslot : slot < page.slots.length) :
    Bitmap.isSet page.header slot = page.isUsed slot := by
  rw [header, Bitmap.isSet_pack (length_bits hsound)
      (by rw [List.length_append, List.length_map]; omega),
    List.getElem_append_left (by simpa using hslot), List.getElem_map]
  simp [isUsed, row?, hslot]

theorem isUsed_mapped (slot : Nat) : page.mapped.isUsed slot = page.isUsed slot := by
  by_cases hslot : slot < page.slots.length
  · simp [MappedPage.isUsed, hslot, isSet_header hsound hslot]
  · simp [MappedPage.isUsed, hslot, isUsed, row?]

/-- Marking the bit of a slot gives the bitmap of the changed page. -/
theorem setSlot_mapped {slot : Nat} (hslot : slot < page.slots.length) (content : Option Row) :
    page.mapped.setSlot slot content = (page.setSlot slot content).mapped := by
  have hbitmap : Bitmap.mark page.header slot content.isSome
      = (page.setSlot slot content).header := by
    rw [header, Bitmap.mark_pack (length_bits hsound)
        (by rw [List.length_append, List.length_map]; omega),
      List.set_append_left _ _ (by simpa using hslot), ← List.map_set]
    rfl
  simp only [MappedPage.setSlot, mapped, hbitmap]
  rfl

/-- The first clear bit is that of the first empty slot. -/
theorem find?_mapped :
    ((List.range page.slots.length).find? fun slot => !page.mapped.isUsed slot) =
      page.slots.findIdx? Option.isNone := by
  rw [← find?_row?]
  simp [isUsed_mapped hsound, isUsed]

theorem insert_mapped (row : Row) :
    page.mapped.insert row =
      (page.insert row).map fun result => (result.1, result.2.mapped) := by
  rw [insert_eq]
  simp only [MappedPage.insert, schema_mapped, slots_mapped, address_mapped, find?_mapped hsound]
  cases row.schema.compatible page.schema with
  | false => rfl
  | true =>
      cases hfree : page.slots.findIdx? Option.isNone with
      | none => rfl
      | some slot =>
          obtain ⟨hslot, -⟩ := List.findIdx?_eq_some_iff_getElem.mp hfree
          simp only [setSlot_mapped hsound hslot]
          rfl

theorem delete_mapped (row : Row) :
    page.mapped.delete row = (page.delete row).map mapped := by
  rw [delete_eq]
  simp only [MappedPage.delete, address_mapped, isUsed_mapped hsound]
  cases row.address with
  | none => rfl
  | some place =>
      by_cases hpage : place.page = page.address
      · cases hused : page.isUsed place.slot with
        | false =>
            simp [hpage, hused]
            rfl
        | true =>
            simp [hpage, hused, setSlot_mapped hsound (lt_of_isUsed hused)]
            rfl
      · simp [hpage]
        rfl

theorem edit_mapped (edit : PageEdit) : page.mapped.edit edit = (page.edit edit).mapped := by
  cases edit with
  | insert row =>
      simp only [MappedPage.edit, Page.edit, insert_mapped hsound]
      cases page.insert row <;> rfl
  | delete row =>
      simp only [MappedPage.edit, Page.edit, delete_mapped hsound]
      cases page.delete row <;> rfl
  | mark owner => rfl
  | snapshot => rfl

end

end Page

/-! ## Rows that are inserted -/

/-- A row that was built from values or read from a page, also if its address was changed. -/
inductive Row.Obtained : Row → Prop
  | built {schema : Schema} {fields : List Field} {row : Row}
      (hbuilt : Row.ofFields? schema fields = some row) : Obtained row
  | read {address : PageAddress} {schema : Schema} {data : Bytes} {page : Page} {row : Row}
      (hread : Page.parse address schema data = .ok page) (hrow : row ∈ page.rows) : Obtained row
  | moved {row : Row} (hrow : Obtained row) (address : Option RecordAddress) :
      Obtained { row with address := address }

namespace Page

theorem mem_rows_iff {page : Page} {row : Row} :
    row ∈ page.rows ↔ ∃ slot, page.row? slot = some row := by
  simp only [rows, List.mem_filterMap, id, slots_of_row?]
  constructor
  · rintro ⟨content, hmem, rfl⟩
    exact List.getElem?_of_mem hmem
  · rintro ⟨slot, hslot⟩
    exact ⟨some row, List.mem_of_getElem? hslot, rfl⟩

/-- The rows of a page that was read have its schema. -/
theorem schema_of_normal {page : Page} (hnormal : page.normal = page) {slot : Nat} {row : Row}
    (hrow : page.row? slot = some row) : row.schema = page.schema := by
  have hsame := row?_normal page slot
  rw [hnormal, hrow] at hsame
  exact congrArg Row.schema (Option.some.inj hsame)

end Page

theorem Row.Obtained.valid {row : Row} (hobtained : row.Obtained) : row.Valid := by
  induction hobtained with
  | built hbuilt => exact Row.valid_of_ofFields? hbuilt
  | read hread hrow =>
      have hfrom := Page.readFrom_of_parse hread
      obtain ⟨slot, hslot⟩ := Page.mem_rows_iff.mp hrow
      rw [Row.Valid, Page.schema_of_normal hfrom.normal hslot]
      exact (hfrom.sound.rows slot _ hslot).2
  | moved hrow address ih => exact ih

namespace Page

/-! ## Single changes -/

/-- What a change does to a page. -/
inductive Edited (page : Page) : PageEdit → Page → Prop
  | refused {edit : PageEdit} : Edited page edit page
  | inserted {row : Row} {place : RecordAddress} {fuller : Page}
      (hinserted : Inserted page row place fuller) : Edited page (.insert row) fuller
  | deleted {row : Row} {place : RecordAddress} {fewer : Page}
      (hdeleted : Deleted page row place fewer) : Edited page (.delete row) fewer
  | marked (owner : Option TransactionId) : Edited page (.mark owner) (page.withOwner owner)
  | snapshot : Edited page .snapshot page.snapshot

theorem edited_edit (page : Page) (edit : PageEdit) : Edited page edit (page.edit edit) := by
  cases edit with
  | insert row =>
      rw [Page.edit]
      cases hinsert : page.insert row with
      | error error => exact .refused
      | ok result =>
          obtain ⟨place, -, hinserted⟩ := inserted_of_insert hinsert
          exact .inserted hinserted
  | delete row =>
      rw [Page.edit]
      cases hdelete : page.delete row with
      | error error => exact .refused
      | ok fewer =>
          obtain ⟨place, hdeleted⟩ := deleted_of_delete hdelete
          exact .deleted hdeleted
  | mark owner => exact .marked owner
  | snapshot => exact .snapshot

section

variable {page later : Page} {edit : PageEdit} (hedited : Edited page edit later)
include hedited

/-- No change touches address, schema and size, and only a snapshot the former bytes. -/
theorem Edited.keeps :
    later.address = page.address ∧ later.schema = page.schema ∧ later.size = page.size ∧
      (edit ≠ .snapshot → later.before = page.before) := by
  cases hedited with
  | inserted hinserted =>
      rw [hinserted.result]
      exact ⟨rfl, rfl, rfl, fun _ => rfl⟩
  | deleted hdeleted =>
      rw [hdeleted.result]
      exact ⟨rfl, rfl, rfl, fun _ => rfl⟩
  | snapshot => exact ⟨rfl, rfl, rfl, fun hno => absurd rfl hno⟩
  | _ => exact ⟨rfl, rfl, rfl, fun _ => rfl⟩

theorem Edited.sound (hsound : page.Sound)
    (hrow : ∀ row, edit = .insert row → row.Obtained) : later.Sound := by
  cases hedited with
  | refused => exact hsound
  | inserted hinserted => exact hinserted.sound hsound (hrow _ rfl).valid
  | deleted hdeleted => exact hdeleted.sound hsound
  | marked owner => exact sound_withOwner hsound owner
  | snapshot => exact sound_snapshot hsound

/-- A page that has obtained rows only goes on to have such rows. -/
theorem Edited.obtained (hstored : ∀ row ∈ page.rows, row.Obtained)
    (hrow : ∀ row, edit = .insert row → row.Obtained) : ∀ row ∈ later.rows, row.Obtained := by
  intro row hmem
  obtain ⟨slot, hslot⟩ := mem_rows_iff.mp hmem
  have hbefore : page.row? slot = some row → row.Obtained :=
    fun hslot => hstored row (mem_rows_iff.mpr ⟨slot, hslot⟩)
  cases hedited with
  | inserted hinserted =>
      rw [hinserted.result, row?_setSlot hinserted.inside] at hslot
      split at hslot
      · rw [← Option.some.inj hslot]
        exact (hrow _ rfl).moved _
      · exact hbefore hslot
  | deleted hdeleted =>
      rw [hdeleted.result, row?_setSlot (lt_of_isUsed hdeleted.used)] at hslot
      split at hslot
      · exact absurd hslot (by simp)
      · exact hbefore hslot
  | _ => exact hbefore hslot

end

/-! ## Runs of changes -/

theorem edits_append (page : Page) (front back : List PageEdit) :
    page.edits (front ++ back) = (page.edits front).edits back :=
  List.foldl_append

theorem edits_concat (page : Page) (edits : List PageEdit) (edit : PageEdit) :
    page.edits (edits ++ [edit]) = (page.edits edits).edit edit :=
  edits_append page edits [edit]

section

variable {page : Page} {edits : List PageEdit}

theorem edits_keeps (page : Page) (edits : List PageEdit) :
    (page.edits edits).address = page.address ∧ (page.edits edits).schema = page.schema ∧
      (page.edits edits).size = page.size := by
  induction edits generalizing page with
  | nil => exact ⟨rfl, rfl, rfl⟩
  | cons edit edits ih =>
      obtain ⟨haddress, hschema, hsize, -⟩ := (edited_edit page edit).keeps
      obtain ⟨haddresses, hschemas, hsizes⟩ := ih (page.edit edit)
      exact ⟨haddresses.trans haddress, hschemas.trans hschema, hsizes.trans hsize⟩

variable (hrows : ∀ row, PageEdit.insert row ∈ edits → row.Obtained)
include hrows

theorem sound_edits (hsound : page.Sound) : (page.edits edits).Sound := by
  induction edits generalizing page with
  | nil => exact hsound
  | cons edit edits ih =>
      refine ih (fun row hrow => hrows row (List.mem_cons_of_mem _ hrow)) ?_
      apply (edited_edit page edit).sound hsound
      rintro row rfl
      exact hrows row List.mem_cons_self

theorem obtained_edits (hstored : ∀ row ∈ page.rows, row.Obtained) :
    ∀ row ∈ (page.edits edits).rows, row.Obtained := by
  induction edits generalizing page with
  | nil => exact hstored
  | cons edit edits ih =>
      refine ih (fun row hrow => hrows row (List.mem_cons_of_mem _ hrow)) ?_
      apply (edited_edit page edit).obtained hstored
      rintro row rfl
      exact hrows row List.mem_cons_self

/-- Both forms of a page go through the same changes. -/
theorem mapped_edits (hsound : page.Sound) :
    page.mapped.edits edits = (page.edits edits).mapped := by
  induction edits generalizing page with
  | nil => rfl
  | cons edit edits ih =>
      have hnext : (page.edit edit).Sound := by
        apply (edited_edit page edit).sound hsound
        rintro row rfl
        exact hrows row List.mem_cons_self
      have hrest := ih (fun row hrow => hrows row (List.mem_cons_of_mem _ hrow)) hnext
      rw [← edit_mapped hsound edit] at hrest
      exact hrest

end

/-! ## What holds after each change -/

/-- An equal page with the same fields and the same address in each slot. -/
structure Copies (copy page : Page) : Prop where
  same : copy.same page = true
  count : copy.slotCount = page.slotCount
  rows : ∀ slot, (copy.row? slot).map (fun row => (row.fields, row.address)) =
    (page.row? slot).map fun row => (row.fields, row.address)

/-- Bitmap and slots agree, the rows know their places, and the page can be read from its bytes. -/
structure Consistent (page : Page) : Prop where
  marked : ∀ slot < page.slotCount, Bitmap.isSet page.mapped.bitmap slot = (page.row? slot).isSome
  bounded : ∀ slot, page.slotCount ≤ slot → page.row? slot = none
  placed : ∀ slot row, page.row? slot = some row → row.address = some ⟨page.address, slot⟩
  counted : page.rows.length = page.mapped.usedSlots
  used : page.usedSlots = page.mapped.usedSlots
  free : page.freeSlots = page.mapped.freeSlots
  filled : page.bytes.length = page.size
  written : page.bytes = page.mapped.bytes
  reread : ∃ copy, parse page.address page.schema page.bytes = .ok copy ∧ copy.Copies page

theorem copies_refl (page : Page) : page.Copies page :=
  ⟨by simp [same], rfl, fun _ => rfl⟩

/-- The bytes of a sound page are read as a copy of it. -/
theorem copies_of_bytes {page : Page} (hsound : page.Sound) :
    ∃ copy, parse page.address page.schema page.bytes = .ok copy ∧ copy.Copies page := by
  refine ⟨_, parse_bytes hsound, ?_, ?_, ?_⟩
  · have hbytes : ((page.withOwner none).snapshot).normal.bytes = page.bytes := bytes_normal _
    have haddress : ((page.withOwner none).snapshot).normal.address = page.address := rfl
    simp only [same, hbytes, haddress, decide_true, Bool.and_self]
  · exact List.length_map _
  · intro slot
    have hrow : ((page.withOwner none).snapshot).row? slot = page.row? slot := rfl
    rw [row?_normal, hrow, normalSlot, Option.map_map]
    rfl

theorem map_row?_range (page : Page) :
    (List.range page.slots.length).map page.row? = page.slots := by
  apply List.ext_getElem?
  intro slot
  by_cases hslot : slot < page.slots.length
  · simp [hslot, row?]
  · simp [hslot]

theorem freeSlots_mapped {page : Page} (hsound : page.Sound) :
    page.mapped.freeSlots = page.freeSlots := by
  have hunused : (fun slot => !page.mapped.isUsed slot) = Option.isNone ∘ page.row? := by
    funext slot
    simp [isUsed_mapped hsound, isUsed]
  rw [MappedPage.freeSlots, slots_mapped, hunused, ← List.countP_map, map_row?_range, freeSlots]

theorem usedSlots_mapped {page : Page} (hsound : page.Sound) :
    page.mapped.usedSlots = page.usedSlots := by
  have hcount := page.slots.length_eq_countP_add_countP Option.isSome
  have hfree : page.freeSlots = page.slots.countP fun content => ¬ content.isSome := by
    apply List.countP_congr
    intro content _
    cases content <;> simp
  rw [MappedPage.usedSlots, slots_mapped, freeSlots_mapped hsound, hfree, usedSlots]
  omega

theorem length_rows (page : Page) : page.rows.length = page.usedSlots := by
  rw [rows, List.length_filterMap_eq_countP]
  rfl

theorem consistent_of_sound {page : Page} (hsound : page.Sound) : page.Consistent where
  marked _ hslot := isSet_header hsound hslot
  bounded slot hslot := by
    rw [row?, List.getElem?_eq_none hslot]
    rfl
  placed slot row hrow := (hsound.rows slot row hrow).1
  counted := by rw [length_rows, usedSlots_mapped hsound]
  used := (usedSlots_mapped hsound).symm
  free := (freeSlots_mapped hsound).symm
  filled := length_bytes hsound
  written := rfl
  reread := copies_of_bytes hsound

/-- A page as it was read, or an empty one; `data` are the bytes that it was loaded from. -/
inductive Loaded (address : PageAddress) (schema : Schema) : Bytes → Page → Prop
  | read {data : Bytes} {page : Page} (hread : parse address schema data = .ok page) :
      Loaded address schema data page
  | empty {size : Nat} {page : Page} (hempty : empty address schema size = .ok page) :
      Loaded address schema (Bytes.zeros size) page

theorem Loaded.parse_eq {address : PageAddress} {schema : Schema} {data : Bytes} {page : Page}
    (hloaded : Loaded address schema data page) : parse address schema data = .ok page := by
  cases hloaded with
  | read hread => exact hread
  | empty hempty => exact hempty

end Page

/-- The changes up to the last snapshot: none of the others is a snapshot, and if there was no
snapshot, there are no such changes. -/
structure PageEdit.UpToSnapshot (edits front : List PageEdit) : Prop where
  rest : ∃ back, edits = front ++ back ∧ .snapshot ∉ back
  ends : front = [] ∨ ∃ earlier, front = earlier ++ [.snapshot]

namespace Page

/-- The former bytes are those of the page as it was after the last snapshot, or when it was
loaded. -/
theorem beforeImage_edits {address : PageAddress} {schema : Schema} {data : Bytes} {page : Page}
    (hloaded : Loaded address schema data page) {edits : List PageEdit}
    (hrows : ∀ row, PageEdit.insert row ∈ edits → row.Obtained) :
    ∃ front, PageEdit.UpToSnapshot edits front ∧
      ∃ image, (page.edits edits).beforeImage = .ok image ∧ image.Copies (page.edits front) := by
  have hread := hloaded.parse_eq
  have hfrom := readFrom_of_parse hread
  induction edits using List.reverseRecOn with
  | nil =>
      refine ⟨[], ⟨⟨[], rfl, List.not_mem_nil⟩, Or.inl rfl⟩, page, ?_, copies_refl page⟩
      have himage : parse page.address page.schema page.before = .ok page := by
        rw [hfrom.address, hfrom.schema, hfrom.before, hread]
      exact himage
  | append_singleton edits edit ih =>
      have hearlier : ∀ row, PageEdit.insert row ∈ edits → row.Obtained :=
        fun row hrow => hrows row (List.mem_append_left _ hrow)
      by_cases hsnapshot : edit = .snapshot
      · subst hsnapshot
        have hreached := sound_edits hearlier hfrom.sound
        obtain ⟨copy, hcopy, hcopies⟩ := copies_of_bytes (sound_snapshot hreached)
        refine ⟨edits ++ [.snapshot], ⟨⟨[], (List.append_nil _).symm, List.not_mem_nil⟩,
          Or.inr ⟨edits, rfl⟩⟩, copy, ?_, ?_⟩
        · rw [edits_concat]
          exact hcopy
        · rw [edits_concat]
          exact hcopies
      · obtain ⟨front, ⟨⟨back, hsplit, hback⟩, hends⟩, image, himage, hcopies⟩ := ih hearlier
        obtain ⟨haddress, hschema, -, hbefore⟩ := (edited_edit (page.edits edits) edit).keeps
        refine ⟨front, ⟨⟨back ++ [edit], ?_, ?_⟩, hends⟩, image, ?_, hcopies⟩
        · rw [hsplit, List.append_assoc]
        · simp [hback, Ne.symm hsnapshot]
        · rw [edits_concat, beforeImage, haddress, hschema, hbefore hsnapshot]
          exact himage

/-- Along every run of changes of a page that was loaded, with rows that were obtained: the page
with its own bitmap goes through the same states, each state is consistent and has only rows that
may be inserted again, and the former page is that of the last snapshot or of the load. -/
theorem consistent_edits {address : PageAddress} {schema : Schema} {data : Bytes} {page : Page}
    (hloaded : Loaded address schema data page) (edits : List PageEdit)
    (hrows : ∀ row, PageEdit.insert row ∈ edits → row.Obtained) :
    MappedPage.parse address schema data = .ok page.mapped ∧
      page.mapped.edits edits = (page.edits edits).mapped ∧
      (page.edits edits).address = address ∧ (page.edits edits).schema = schema ∧
      (page.edits edits).size = data.length ∧
      (page.edits edits).Consistent ∧
      (∀ row ∈ (page.edits edits).rows, row.Obtained) ∧
      ∃ front, PageEdit.UpToSnapshot edits front ∧
        ∃ image, (page.edits edits).beforeImage = .ok image ∧ image.Copies (page.edits front) := by
  have hread := hloaded.parse_eq
  have hfrom := readFrom_of_parse hread
  obtain ⟨haddress, hschema, hsize⟩ := edits_keeps page edits
  have hmapped : MappedPage.parse address schema data = .ok page.mapped := by
    rw [MappedPage.parse_eq, hread]
    rfl
  exact ⟨hmapped, mapped_edits hrows hfrom.sound, haddress.trans hfrom.address,
    hschema.trans hfrom.schema, hsize.trans hfrom.size,
    consistent_of_sound (sound_edits hrows hfrom.sound),
    obtained_edits hrows fun row hrow => .read hread hrow, beforeImage_edits hloaded hrows⟩

/-- A text that is cut between its characters, on a page of two slots: the third insertion fails,
then the first row is deleted. -/
theorem consistent_edits_cut_text :
    let schema : Schema := ⟨[⟨.int, "number"⟩, ⟨.string, "text"⟩]⟩
    let long := String.ofList ('x' :: List.replicate 100 'é')
    ∃ page row, empty ⟨1, 0⟩ schema 300 = .ok page ∧
      Row.ofFields? schema [.int 1, .string long] = some row ∧
      let edits : List PageEdit := [.insert row, .snapshot, .insert row, .insert row,
        .delete (placed row ⟨⟨1, 0⟩, 0⟩)]
      (page.edits edits).rows.map Row.address = [some ⟨⟨1, 0⟩, 1⟩] ∧
        (page.edits edits).Consistent := by
  intro schema long
  have hrun : ((empty ⟨1, 0⟩ schema 300).toOption.bind fun page =>
      (Row.ofFields? schema [.int 1, .string long]).map fun row =>
        (page.edits [.insert row, .snapshot, .insert row, .insert row,
          .delete (placed row ⟨⟨1, 0⟩, 0⟩)]).rows.map Row.address)
        = some [some ⟨⟨1, 0⟩, 1⟩] := by
    decide +kernel
  obtain ⟨page, hpage, hmap⟩ := Option.bind_eq_some_iff.mp hrun
  obtain ⟨row, hbuilt, haddresses⟩ := Option.map_eq_some_iff.mp hmap
  have hempty := ok_of_toOption hpage
  refine ⟨page, row, hempty, hbuilt, haddresses, ?_⟩
  have hrows : ∀ stored, PageEdit.insert stored ∈ ([.insert row, .snapshot, .insert row,
      .insert row, .delete (placed row ⟨⟨1, 0⟩, 0⟩)] : List PageEdit) → stored.Obtained := by
    intro stored hstored
    have hsame : stored = row := by simpa using hstored
    exact hsame ▸ .built hbuilt
  exact (consistent_edits (.empty hempty) _ hrows).2.2.2.2.2.1

end Page

end HeapStore
