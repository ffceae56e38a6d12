import HeapStore.Proofs.Editing
import HeapStore.Proofs.Perform

/-!
# A table file as a list of pages

`Table.wholePages` are the whole pages of a table file one behind the other; bytes behind them are
a part of a page that nobody reads.  Writing a page sets it in this list, or puts it at the end
over such a part (`Table.Written.wholePages`), so no other page changes and the list grows by at
most one.

`Store.PageWrite` lists what a write can come to, in the order in which it is checked, and
`Store.PageStored` what holds after one that succeeded.  A page is read back under the schema of the
table, which has the types of the schema of the page but may name the columns otherwise.
-/

namespace HeapStore

namespace Table

variable {table : Table} {content after : Content} {number : UInt32} {data : Bytes}

/-- The whole pages of a file. -/
def wholePages (table : Table) (content : Content) : List Bytes :=
  blocks table.pageSize (content.size / table.pageSize) content.toBytes

@[simp] theorem length_wholePages (table : Table) (content : Content) :
    (table.wholePages content).length = content.size / table.pageSize :=
  length_blocks _ _ _

theorem getElem?_wholePages {index : Nat} (hindex : index < content.size / table.pageSize) :
    (table.wholePages content)[index]?
      = some (content.slice (index * table.pageSize) table.pageSize) := by
  rw [wholePages, getElem?_blocks table.pageSize content.toBytes hindex, Content.slice_eq,
    Bytes.slice]

/-- A page that is written over an old one or behind the last one is counted then. -/
theorem Written.count (hpos : 0 < table.pageSize)
    (hwritten : table.Written content number data after)
    (hplace : number.toNat ≤ content.size / table.pageSize) :
    after.size / table.pageSize = max (content.size / table.pageSize) (number.toNat + 1) := by
  rcases Nat.lt_or_eq_of_le hplace with hinside | hbehind
  · rw [hwritten.size_inside hinside]
    omega
  · rw [hwritten.count_behind hpos hbehind]
    omega

/-- The page with the number is set in the list of pages or put at its end. -/
theorem Written.wholePages (hpos : 0 < table.pageSize)
    (hwritten : table.Written content number data after)
    (hplace : number.toNat ≤ content.size / table.pageSize) :
    table.wholePages after =
      if number.toNat < content.size / table.pageSize then
        (table.wholePages content).set number.toNat data
      else table.wholePages content ++ [data] := by
  have hcount := hwritten.count hpos hplace
  have hlength := length_wholePages table content
  apply List.ext_getElem?
  intro index
  by_cases hsame : index = number.toNat
  · subst hsame
    have hpage : (table.wholePages after)[number.toNat]? = some data := by
      rw [getElem?_wholePages (by omega)]
      exact congrArg some hwritten.slice_same
    rw [hpage]
    split
    · rename_i hinside
      rw [List.getElem?_set_self (by omega)]
    · have hend : number.toNat = (table.wholePages content).length := by omega
      rw [hend, List.getElem?_concat_length]
  · -- where the file has another page, before and after, it is the same one
    have hother : (table.wholePages after)[index]? = (table.wholePages content)[index]? := by
      by_cases hindex : index < content.size / table.pageSize
      · rw [getElem?_wholePages (by omega), getElem?_wholePages hindex,
          hwritten.slice_apart hsame]
      · rw [List.getElem?_eq_none (by simp; omega), List.getElem?_eq_none (by simp; omega)]
    rw [hother]
    split
    · rw [List.getElem?_set_ne (Ne.symm hsame)]
    · by_cases hindex : index < content.size / table.pageSize
      · rw [List.getElem?_append_left (by omega)]
      · rw [List.getElem?_eq_none (by omega),
          List.getElem?_eq_none (by rw [List.length_append, List.length_singleton]; omega)]

theorem writePage_eq (table : Table) (armed : Failpoints) (content : Content) (page : Page) :
    table.writePage armed content page =
      if page.bytes.length = table.pageSize then
        if page.address.table = table.id ∧ page.address.number ≤ table.pageCount content then
          if armed.isEnabled heapWritePage then .error (.file (.failpoint heapWritePage))
          else .ok (content.splice (table.offset page.address.number) page.bytes)
        else .error (.pageOutOfRange page.address (table.pageCount content))
      else .error (.malformedPage page.address (.wrongSize page.bytes.length table.pageSize)) := by
  by_cases hsize : page.bytes.length = table.pageSize
  · have hchecked : (decide (page.address.table ≠ table.id) ||
        decide (table.pageCount content < page.address.number)) = true ↔
          ¬ (page.address.table = table.id ∧ page.address.number ≤ table.pageCount content) := by
      rw [not_and_or, UInt32.not_le, Bool.or_eq_true, decide_eq_true_eq, decide_eq_true_eq]
    simp only [writePage, hsize, ne_eq, not_true_eq_false, if_false, if_true]
    by_cases hplace : page.address.table = table.id ∧ page.address.number ≤ table.pageCount content
    · rw [if_neg (fun hbad => hchecked.mp hbad hplace), if_pos hplace, writeAt, Failpoints.check]
      cases armed.isEnabled heapWritePage <;> rfl
    · rw [if_pos (hchecked.mpr hplace), if_neg hplace]
  · rw [writePage, if_pos hsize, if_neg hsize]

theorem readPage_of_lt {address : PageAddress} (htable : address.table = table.id)
    (hnumber : address.number < table.pageCount content) :
    table.readPage content address = Page.parse address table.schema
      (content.slice (table.offset address.number) table.pageSize) := by
  rw [readPage, if_neg (not_not_intro htable), if_neg (UInt32.not_le.mpr hnumber)]

end Table

/-- A page with slots has bytes. -/
theorem Page.Sound.size_pos {page : Page} (hsound : page.Sound) : 0 < page.size := by
  have hpos := hsound.pos
  rw [hsound.count, Geometry.slotCount] at hpos
  split at hpos
  · exact absurd hpos (Nat.lt_irrefl 0)
  · apply Nat.pos_of_ne_zero
    intro hzero
    simp [hzero] at hpos

/-- The bytes of a page are read as a copy of it under every compatible schema. -/
theorem Page.copies_of_compatible {page : Page} {schema : Schema} (hsound : page.Sound)
    (hcompatible : schema.compatible page.schema = true) :
    ∃ copy, parse page.address schema page.bytes = .ok copy ∧ copy.schema = schema ∧
      copy.Copies page := by
  have hbytes := bytes_withSchema hcompatible
  obtain ⟨copy, hparse, hsame, hcount, hrows⟩ :=
    copies_of_bytes (sound_withSchema hsound hcompatible)
  rw [hbytes] at hparse
  refine ⟨copy, hparse, (readFrom_of_parse hparse).schema, ?_, hcount, hrows⟩
  rw [same, hbytes] at hsame
  exact hsame

namespace Store

variable {table : Table} {page : Page} {store : Store}

/-! ## Writing a page -/

/-- The page has the identity of the table, and its number is that of a page of the file or the
next one. -/
def HasPlace (table : Table) (page : Page) (store : Store) : Prop :=
  page.address.table = table.id ∧ page.address.number ≤ store.pageCount table

/-- What the write of a page comes to.  Only the last of the cases changes anything. -/
inductive PageWrite (table : Table) (page : Page) (store : Store) :
    Except StoreError Unit × Store → Prop
  | otherSize (hsize : page.bytes.length ≠ table.pageSize) :
      PageWrite table page store
        (.error (.malformedPage page.address (.wrongSize page.bytes.length table.pageSize)), store)
  | outOfRange (hsize : page.bytes.length = table.pageSize) (hplace : ¬ HasPlace table page store) :
      PageWrite table page store
        (.error (.pageOutOfRange page.address (store.pageCount table)), store)
  | failpoint (hsize : page.bytes.length = table.pageSize) (hplace : HasPlace table page store)
      (harmed : store.armed.isEnabled heapWritePage = true) :
      PageWrite table page store (.error (.file (.failpoint heapWritePage)), store)
  | written (hsize : page.bytes.length = table.pageSize) (hplace : HasPlace table page store)
      (harmed : store.armed.isEnabled heapWritePage = false) {after : Content}
      (hwritten : table.Written (store.tableContent table) page.address.number page.bytes after) :
      PageWrite table page store
        (.ok (), { store with disk := store.disk.write table.location after })

theorem pageWrite_perform (table : Table) (page : Page) (store : Store) :
    PageWrite table page store ((writePage table page).perform store) := by
  have hwrite := Table.writePage_eq table store.armed (store.disk.content table.location) page
  rw [perform_writePage]
  by_cases hsize : page.bytes.length = table.pageSize
  · rw [if_pos hsize] at hwrite
    by_cases hplace : page.address.table = table.id ∧
        page.address.number ≤ table.pageCount (store.disk.content table.location)
    · rw [if_pos hplace] at hwrite
      cases harmed : store.armed.isEnabled heapWritePage with
      | true =>
          rw [if_pos harmed] at hwrite
          rw [hwrite]
          exact .failpoint hsize hplace harmed
      | false =>
          rw [if_neg (by simp [harmed])] at hwrite
          rw [hwrite]
          exact .written hsize hplace harmed (Table.written_of_writePage hwrite).2.2
    · rw [if_neg hplace] at hwrite
      rw [hwrite]
      exact .outOfRange hsize hplace
  · rw [if_neg hsize] at hwrite
    rw [hwrite]
    exact .otherSize hsize

/-- A page of the right size that has a place is written unless the step is made to fail. -/
theorem PageWrite.ok_iff {outcome : Except StoreError Unit × Store}
    (hwrite : PageWrite table page store outcome) :
    outcome.1 = .ok () ↔ page.bytes.length = table.pageSize ∧ HasPlace table page store ∧
      store.armed.isEnabled heapWritePage = false := by
  cases hwrite with
  | otherSize hsize => simp [hsize]
  | outOfRange hsize hplace => simp [hplace]
  | failpoint hsize hplace harmed => simp [harmed]
  | written hsize hplace harmed hwritten => simp [hsize, hplace, harmed]

theorem PageWrite.eq_of_failed {outcome : Except StoreError Unit × Store}
    (hwrite : PageWrite table page store outcome) (hfailed : outcome.1 ≠ .ok ()) :
    outcome.2 = store := by
  cases hwrite with
  | written => exact absurd rfl hfailed
  | _ => rfl

/-! ## The file afterwards -/

/-- What holds after a page was written to the file of a table. -/
structure PageStored (table : Table) (page : Page) (store after : Store) : Prop where
  /-- The bytes of the page stand at its place, those before and behind it are as they were. -/
  bytes : (after.tableContent table).toBytes =
    (store.tableContent table).toBytes.take (table.offset page.address.number) ++
      (page.bytes ++
        (store.tableContent table).toBytes.drop (table.offset page.address.number + page.size))
  pages : table.wholePages (after.tableContent table) =
    if page.address.number < store.pageCount table then
      (table.wholePages (store.tableContent table)).set page.address.number.toNat page.bytes
    else table.wholePages (store.tableContent table) ++ [page.bytes]
  count : (after.pageCount table).toNat =
    max (store.pageCount table).toNat (page.address.number.toNat + 1)
  reread : ∃ copy, table.readPage (after.tableContent table) page.address = .ok copy ∧
    copy.schema = table.schema ∧ copy.Copies page
  others : ∀ other : PageAddress, other.number < store.pageCount table →
    other.number ≠ page.address.number →
      table.readPage (after.tableContent table) other =
        table.readPage (store.tableContent table) other
  elsewhere : ∀ location, location ≠ table.location →
    after.disk.content location = store.disk.content location
  rest : after = { store with disk := after.disk }

theorem PageStored.of_written {after : Content} (hlocation : table.location ≠ [])
    (hsound : page.Sound) (hcompatible : table.schema.compatible page.schema = true)
    (hsize : page.bytes.length = table.pageSize) (hplace : HasPlace table page store)
    (hsmall : (store.tableContent table).size / table.pageSize < UInt32.size - 1)
    (hwritten : table.Written (store.tableContent table) page.address.number page.bytes after) :
    PageStored table page store { store with disk := store.disk.write table.location after } := by
  obtain ⟨hid, hnumber⟩ := hplace
  have hpos : 0 < table.pageSize := by
    rw [← hsize, Page.length_bytes hsound]
    exact hsound.size_pos
  have hcontent : tableContent { store with disk := store.disk.write table.location after } table
      = after := Disk.content_write_same store.disk hlocation after
  have hpages : (store.pageCount table).toNat
      = (store.tableContent table).size / table.pageSize :=
    Table.pageCount_of_small (Nat.lt_of_lt_of_le hsmall (Nat.sub_le _ _))
  have hle : page.address.number.toNat ≤ (store.tableContent table).size / table.pageSize := by
    rw [← hpages]
    exact UInt32.le_iff_toNat_le.mp hnumber
  have hcount := hwritten.count hpos hle
  have hpagesAfter : (table.pageCount after).toNat = after.size / table.pageSize :=
    Table.pageCount_of_small (by rw [Table.Small, hcount]; omega)
  refine ⟨?_, ?_, ?_, ?_, ?_, ?_, rfl⟩
  · have hinside := hwritten.inside
    rw [Content.size_eq_length] at hinside
    rw [hcontent, hwritten.toBytes, Bytes.splice_of_le hinside, Page.length_bytes hsound]
  · rw [hcontent, hwritten.wholePages hpos hle]
    simp only [UInt32.lt_iff_toNat_lt, hpages]
  · rw [pageCount, hcontent, hpagesAfter, hcount, hpages]
  · obtain ⟨copy, hparse, hschema, hcopies⟩ := Page.copies_of_compatible hsound hcompatible
    refine ⟨copy, ?_, hschema, hcopies⟩
    have hlast : page.address.number < table.pageCount after := by
      rw [UInt32.lt_iff_toNat_lt, hpagesAfter, hcount]
      omega
    rw [hcontent, Table.readPage_of_lt hid hlast, hwritten.slice_same, hparse]
  · intro other hother hne
    have hcounted : other.number < table.pageCount after := by
      rw [UInt32.lt_iff_toNat_lt, hpages] at hother
      rw [UInt32.lt_iff_toNat_lt, hpagesAfter, hcount]
      omega
    rw [hcontent]
    by_cases htable : other.table = table.id
    · rw [Table.readPage_of_lt htable hcounted, Table.readPage_of_lt htable hother,
        hwritten.slice_other hne]
    · rw [Table.readPage, Table.readPage, if_pos htable, if_pos htable]
  · intro location hother
    exact Disk.content_write_other store.disk hother after

theorem PageWrite.stored {outcome : Except StoreError Unit × Store}
    (hwrite : PageWrite table page store outcome) (hlocation : table.location ≠ [])
    (hsound : page.Sound) (hcompatible : table.schema.compatible page.schema = true)
    (hsmall : (store.tableContent table).size / table.pageSize < UInt32.size - 1)
    (hok : outcome.1 = .ok ()) : PageStored table page store outcome.2 := by
  cases hwrite with
  | written hsize hplace harmed hwritten =>
      exact .of_written hlocation hsound hcompatible hsize hplace hsmall hwritten
  | _ => exact absurd hok (by simp)

/-- A table file is an array of pages.  A write of a page, as it was loaded or as changes left it,
succeeds exactly for a page of the size and the identity of the table whose number is at most the
count of pages, while the failpoint is not armed; it changes nothing in all other cases.  A page
that was written is read back, and no other page has changed. -/
theorem writePage_stores {disk made : Disk} {path : String} {schema : Schema} {pageSize : Nat}
    (hopen : Table.openFile disk path schema pageSize = (.ok table, made))
    {address : PageAddress} {pageSchema : Schema} {data : Bytes} {base : Page}
    (hloaded : Page.Loaded address pageSchema data base) {edits : List PageEdit}
    (hrows : ∀ row, PageEdit.insert row ∈ edits → row.Obtained) (store : Store) :
    let page := base.edits edits
    let outcome := (writePage table page).perform store
    PageWrite table page store outcome ∧
      (outcome.1 = .ok () ↔ page.size = table.pageSize ∧ page.address.table = table.id ∧
        page.address.number ≤ store.pageCount table ∧
        store.armed.isEnabled heapWritePage = false) ∧
      (outcome.1 ≠ .ok () → outcome.2 = store) ∧
      (outcome.1 = .ok () → table.schema.compatible pageSchema = true →
        (store.tableContent table).size / table.pageSize < UInt32.size - 1 →
          PageStored table page store outcome.2) := by
  intro page outcome
  have hread := Page.readFrom_of_parse hloaded.parse_eq
  have hsound : page.Sound := Page.sound_edits hrows hread.sound
  have hschema : page.schema = pageSchema :=
    (Page.edits_keeps base edits).2.1.trans hread.schema
  have hwrite : PageWrite table page store outcome := pageWrite_perform table page store
  refine ⟨hwrite, ?_, ?_, ?_⟩
  · rw [hwrite.ok_iff, Page.length_bytes hsound, HasPlace, and_assoc]
  · exact hwrite.eq_of_failed
  · intro hok hcompatible hsmall
    rw [← hschema] at hcompatible
    exact hwrite.stored (Table.of_openFile hopen).2 hsound hcompatible hsmall hok

/-- A page with a row is written over a part of a page behind a whole one. -/
theorem writePage_stores_partial_tail :
    let schema : Schema := .ofTypes [.int]
    let table : Table := ⟨TableId.ofLocation ["a"], "a", ["a"], schema, 16⟩
    let disk : Disk := ⟨[(["a"], .file (.ofBytes (Bytes.zeros 16 ++ [1, 2, 3, 4, 5])))], []⟩
    let store : Store := { (default : Store) with disk := disk }
    let base : Page := ⟨⟨table.id, 1⟩, schema, 16, [none, none, none], List.replicate 5 false, none,
      Bytes.zeros 16⟩
    let row : Row := ⟨schema, [.int 7], none⟩
    let outcome := (writePage table (base.edits [.insert row])).perform store
    Table.openFile disk "a" schema 16 = (.ok table, disk) ∧
      Page.Loaded ⟨table.id, 1⟩ schema (Bytes.zeros 16) base ∧
      (∀ stored, PageEdit.insert stored ∈ [.insert row] → stored.Obtained) ∧
      outcome.1 = .ok () ∧ PageStored table (base.edits [.insert row]) store outcome.2 := by
  intro schema table disk store base row outcome
  have hopen : Table.openFile disk "a" schema 16 = (.ok table, disk) := rfl
  have hloaded : Page.Loaded ⟨table.id, 1⟩ schema (Bytes.zeros 16) base  :=
    .empty (by decide +kernel)
  have hrows : ∀ stored, PageEdit.insert stored ∈ [.insert row] → stored.Obtained := by
    intro stored hstored
    obtain rfl : stored = row := by simpa using hstored
    have hbuilt : Row.ofFields? schema [.int 7] = some row := by decide +kernel
    exact .built hbuilt
  obtain ⟨-, hiff, -, hstored⟩ := writePage_stores hopen hloaded hrows store
  have hok : outcome.1 = .ok () := hiff.mpr ⟨rfl, rfl, by decide +kernel, rfl⟩
  exact ⟨hopen, hloaded, hrows, hok, hstored hok rfl (by decide +kernel)⟩

end Store

end HeapStore
