import HeapStore.Proofs.Lookup
import HeapStore.Proofs.Page
import HeapStore.Table

/-!
# Pages in files

What the disk and a table file hold after a write.  A write changes the content of one location and
leaves all others alone.  `Table.filed?` is the page that a file has under a number, without the
limit of 32 bits on the count of pages; while the file is below that limit, `readPage_eq_ok_iff`
says that it is what reading gives.  Writing a page in its place changes the page with its number
and no other, and a page of zeros behind the last one adds a page without rows.
-/

namespace HeapStore

namespace Disk

theorem lookup_put (disk : Disk) (location : Location) (entry : Entry) (other : Location) :
    (disk.put location entry).entries.lookup other =
      if other = location then some entry else disk.entries.lookup other := by
  unfold put
  split
  · rename_i hany
    have hsome : (disk.entries.lookup location).isSome = true := by
      rw [List.lookup_isSome_iff]
      obtain ⟨old, hold, hlocation⟩ := List.any_eq_true.mp hany
      exact ⟨old, hold, by simpa using (of_decide_eq_true hlocation).symm⟩
    obtain ⟨old, hold⟩ := Option.isSome_iff_exists.mp hsome
    show List.lookup other (disk.entries.map fun old =>
      if old.1 = location then (location, entry) else old) = _
    rw [lookup_map_replace, hold]
    rfl
  · rename_i hany
    have hnone : disk.entries.lookup location = none := by
      rw [List.lookup_eq_none_iff]
      intro old hold
      have hother : old.1 ≠ location := by
        intro hlocation
        exact hany (List.any_eq_true.mpr ⟨old, hold, decide_eq_true hlocation⟩)
      simpa using Ne.symm hother
    exact lookup_append_of_none hnone other

theorem entry_put (disk : Disk) {location : Location} (hlocation : location ≠ []) (entry : Entry)
    (other : Location) :
    Disk.entry? (disk.put location entry) other =
      if other = location then some entry else disk.entry? other := by
  simp only [lookup_put, entry?]
  by_cases hother : other = location
  · simp [hother, hlocation]
  · simp [hother]

theorem content_write (disk : Disk) {location : Location} (hlocation : location ≠ [])
    (content : Content) (other : Location) :
    (disk.write location content).content other =
      if other = location then content else disk.content other := by
  simp only [Disk.content, write, entry_put disk hlocation]
  by_cases hother : other = location
  · simp [hother]
  · simp [hother]

theorem content_write_same (disk : Disk) {location : Location} (hlocation : location ≠ [])
    (content : Content) : (disk.write location content).content location = content := by
  simp [content_write disk hlocation]

theorem content_write_other (disk : Disk) {location other : Location} (hother : other ≠ location)
    (content : Content) : (disk.write location content).content other = disk.content other := by
  by_cases hroot : other = []
  · simp [Disk.content, entry?, hroot]
  · simp only [Disk.content, write, entry?, lookup_put]
    simp [hother]

/-! ## Opening files -/

/-- What it takes to open a file, and what the opening changes: the file lies under a name in a
directory, and it is made if it is missing. -/
theorem openFile_cases {disk made : Disk} {path : Path} {location : Location}
    (hopen : disk.openFile path = .ok (location, made)) :
    ∃ above name, location = above ++ [name] ∧ checkPath path = .ok () ∧
      path.names.getLast? = some name ∧
      disk.directoryAt (disk.start path) path.names.dropLast = .ok above ∧
      (name = "." || name = ".." || path.trailing) = false ∧ fits name = true ∧
      ((∃ content, disk.entry? location = some (.file content) ∧ made = disk) ∨
        disk.entry? location = none ∧ made = disk.put location (.file .empty)) := by
  simp only [openFile, bind, Except.bind, pure, Except.pure, throw, throwThe,
    MonadExceptOf.throw] at hopen
  split at hopen
  · exact absurd hopen (by simp)
  · rename_i hcheck
    split at hopen
    · split at hopen <;> exact absurd hopen (by simp)
    · rename_i name hname
      split at hopen
      · exact absurd hopen (by simp)
      · rename_i above habove
        split at hopen
        · exact absurd hopen (by simp)
        · rename_i hplain
          split at hopen
          · exact absurd hopen (by simp)
          · rename_i hfits
            have hplain := Bool.eq_false_iff.mpr hplain
            have hfits : fits name = true := by simpa using hfits
            split at hopen
            · exact absurd hopen (by simp)
            · rename_i content hentry
              obtain ⟨rfl, rfl⟩ := Prod.mk.inj (Except.ok.inj hopen)
              exact ⟨above, name, rfl, hcheck, hname, habove, hplain, hfits,
                .inl ⟨content, hentry, rfl⟩⟩
            · rename_i hentry
              obtain ⟨rfl, rfl⟩ := Prod.mk.inj (Except.ok.inj hopen)
              exact ⟨above, name, rfl, hcheck, hname, habove, hplain, hfits,
                .inr ⟨hentry, rfl⟩⟩

theorem location_ne_nil_of_openFile {disk made : Disk} {path : Path} {location : Location}
    (hopen : disk.openFile path = .ok (location, made)) : location ≠ [] := by
  obtain ⟨above, name, rfl, -⟩ := openFile_cases hopen
  simp

/-- Names lead on as before where no directory has become something else. -/
theorem follow_of_directories {disk after : Disk}
    (hdirectories : ∀ location, disk.entry? location = some .directory →
      after.entry? location = some .directory)
    {origin : Location} {names : List String} {location : Location}
    (hfollow : disk.follow origin names = .ok location) :
    after.follow origin names = .ok location := by
  induction names generalizing origin with
  | nil => exact hfollow
  | cons name rest ih =>
    simp only [follow] at hfollow ⊢
    split at hfollow
    · exact absurd hfollow (by simp)
    · exact absurd hfollow (by simp)
    · rename_i hdirectory
      simp only [hdirectories origin hdirectory]
      split at hfollow
      · rename_i hdot
        rw [if_pos hdot]
        exact ih hfollow
      · rename_i hdot
        rw [if_neg hdot]
        split at hfollow
        · rename_i hup
          rw [if_pos hup]
          exact ih hfollow
        · rename_i hup
          rw [if_neg hup]
          split at hfollow
          · rename_i hfits
            rw [if_pos hfits]
            exact ih hfollow
          · exact absurd hfollow (by simp)

/-- Two disks that differ at most in the file at a location. -/
structure Rewritten (disk : Disk) (location : Location) (after : Disk) : Prop where
  working : after.workingDirectory = disk.workingDirectory
  other : ∀ other, other ≠ location → after.entry? other = disk.entry? other

theorem Rewritten.refl (disk : Disk) (location : Location) : disk.Rewritten location disk :=
  ⟨rfl, fun _ _ => rfl⟩

theorem Rewritten.trans {first second third : Disk} {location : Location}
    (hfirst : first.Rewritten location second) (hsecond : second.Rewritten location third) :
    first.Rewritten location third :=
  ⟨hsecond.working.trans hfirst.working, fun other hother =>
    (hsecond.other other hother).trans (hfirst.other other hother)⟩

theorem Rewritten.write {disk after : Disk} {location : Location}
    (hsame : disk.Rewritten location after) (hlocation : location ≠ []) (content : Content) :
    disk.Rewritten location (after.write location content) where
  working := by
    rw [← hsame.working, Disk.write, put]
    split <;> rfl
  other other hother := by
    rw [Disk.write, entry_put after hlocation, if_neg hother]
    exact hsame.other other hother

theorem entry_write_same (disk : Disk) {location : Location} (hlocation : location ≠ [])
    (content : Content) :
    Disk.entry? (disk.write location content) location = some (.file content) := by
  rw [write, entry_put disk hlocation, if_pos rfl]

theorem rewritten_of_openFile {disk made : Disk} {path : Path} {location : Location}
    (hopen : disk.openFile path = .ok (location, made)) : disk.Rewritten location made := by
  have hlocation := location_ne_nil_of_openFile hopen
  obtain ⟨above, name, -, -, -, -, -, -, hmade⟩ := openFile_cases hopen
  rcases hmade with ⟨content, -, rfl⟩ | ⟨-, rfl⟩
  · exact .refl made location
  · exact (Rewritten.refl disk location).write hlocation .empty

/-- To open a file does not change what is in it. -/
theorem content_of_openFile {disk made : Disk} {path : Path} {location : Location}
    (hopen : disk.openFile path = .ok (location, made)) :
    made.content location = disk.content location := by
  have hlocation := location_ne_nil_of_openFile hopen
  obtain ⟨above, name, -, -, -, -, -, -, hmade⟩ := openFile_cases hopen
  rcases hmade with ⟨content, -, rfl⟩ | ⟨hmissing, rfl⟩
  · rfl
  · rw [Disk.content, entry_put disk hlocation, if_pos rfl, Disk.content, hmissing]

/-- To open a file that has something in it changes nothing. -/
theorem made_of_openFile {disk made : Disk} {path : Path} {location : Location}
    (hopen : disk.openFile path = .ok (location, made))
    (hsize : 0 < (disk.content location).size) : made = disk := by
  obtain ⟨above, name, -, -, -, -, -, -, hmade⟩ := openFile_cases hopen
  rcases hmade with ⟨content, -, rfl⟩ | ⟨hmissing, -⟩
  · rfl
  · rw [Disk.content, hmissing] at hsize
    exact absurd hsize (Nat.lt_irrefl 0)

/-- A file that is there is opened. -/
theorem openFile_of_file {disk : Disk} {path : Path} {above : Location} {name : String}
    {content : Content} (hcheck : checkPath path = .ok ())
    (hname : path.names.getLast? = some name)
    (habove : disk.directoryAt (disk.start path) path.names.dropLast = .ok above)
    (hplain : (name = "." || name = ".." || path.trailing) = false) (hfits : fits name = true)
    (hfile : disk.entry? (above ++ [name]) = some (.file content)) :
    disk.openFile path = .ok (above ++ [name], disk) := by
  simp [openFile, hcheck, hname, habove, hplain, hfits, hfile, bind, Except.bind, pure,
    Except.pure]

/-- A file that was opened is opened again at its place, also after it was rewritten. -/
theorem openFile_again {disk made after : Disk} {path : Path} {location : Location}
    {content : Content} (hopen : disk.openFile path = .ok (location, made))
    (hsame : disk.Rewritten location after)
    (hfile : after.entry? location = some (.file content)) :
    after.openFile path = .ok (location, after) := by
  obtain ⟨above, name, rfl, hcheck, hname, habove, hplain, hfits, hmade⟩ := openFile_cases hopen
  have hdirectories : ∀ place, disk.entry? place = some .directory →
      after.entry? place = some .directory := by
    intro place hdirectory
    have hplace : place ≠ above ++ [name] := by
      rintro rfl
      rcases hmade with ⟨_, hentry, -⟩ | ⟨hentry, -⟩ <;> simp [hentry] at hdirectory
    rw [hsame.other place hplace, hdirectory]
  have hstart : after.start path = disk.start path := by simp [start, hsame.working]
  have hagain : after.directoryAt (disk.start path) path.names.dropLast = .ok above := by
    simp only [directoryAt, bind, Except.bind, pure, Except.pure, throw, throwThe,
      MonadExceptOf.throw] at habove ⊢
    split at habove
    · exact absurd habove (by simp)
    · rename_i reached hfollow
      rw [follow_of_directories hdirectories hfollow]
      split at habove
      · exact absurd habove (by simp)
      · exact absurd habove (by simp)
      · rename_i hdirectory
        simp only [hdirectories reached hdirectory]
        exact habove
  rw [← hstart] at hagain
  exact openFile_of_file hcheck hname hagain hplain hfits hfile

end Disk

namespace Table

variable {table : Table} {content after : Content} {number : UInt32} {page : Page}

/-- The file has fewer pages than a number of 32 bits can count. -/
def Small (table : Table) (content : Content) : Prop :=
  content.size / table.pageSize < UInt32.size

instance (table : Table) (content : Content) : Decidable (table.Small content) :=
  inferInstanceAs (Decidable (_ < _))

/-- The page of the file under this number, if it is there and can be parsed. -/
def filed? (table : Table) (content : Content) (number : UInt32) : Option Page :=
  if number.toNat < content.size / table.pageSize then
    (Page.parse ⟨table.id, number⟩ table.schema
      (content.slice (table.offset number) table.pageSize)).toOption
  else none

theorem pageCount_of_small (hsmall : table.Small content) :
    (table.pageCount content).toNat = content.size / table.pageSize :=
  UInt32.toNat_ofNat_of_lt' hsmall

theorem pageCount_le (table : Table) (content : Content) :
    (table.pageCount content).toNat ≤ content.size / table.pageSize := by
  rw [pageCount, UInt32.toNat_ofNat']
  exact Nat.mod_le _ _

/-- The pages of a file lie before its end. -/
theorem offset_add_le (hnumber : number.toNat < content.size / table.pageSize) :
    table.offset number + table.pageSize ≤ content.size := by
  have hpages := Nat.mul_le_mul_right table.pageSize (Nat.succ_le_of_lt hnumber)
  have hsize := Nat.div_mul_le_self content.size table.pageSize
  rw [Nat.succ_mul] at hpages
  exact Nat.le_trans hpages hsize

theorem length_slice (hnumber : number.toNat < content.size / table.pageSize) :
    (content.slice (table.offset number) table.pageSize).length = table.pageSize := by
  have hend := offset_add_le hnumber
  rw [Content.size_eq_length] at hend
  rw [Content.slice_eq, Bytes.slice, List.length_take, List.length_drop]
  omega

/-! ## Reading -/

/-- What a page in a file is. -/
theorem of_filed? (hfiled : table.filed? content number = some page) :
    number.toNat < content.size / table.pageSize ∧
      Page.ReadFrom ⟨table.id, number⟩ table.schema
        (content.slice (table.offset number) table.pageSize) page ∧
      page.size = table.pageSize := by
  unfold filed? at hfiled
  split at hfiled
  · rename_i hnumber
    have hread := Page.readFrom_of_parse (ok_of_toOption hfiled)
    exact ⟨hnumber, hread, hread.size.trans (length_slice hnumber)⟩
  · exact absurd hfiled (by simp)

/-- Below the limit, reading gives the pages of the file. -/
theorem readPage_eq_ok_iff (hsmall : table.Small content) {address : PageAddress} :
    table.readPage content address = .ok page ↔
      address.table = table.id ∧ table.filed? content address.number = some page := by
  obtain ⟨id, number⟩ := address
  have hcount := pageCount_of_small hsmall
  simp only [readPage, filed?]
  by_cases hid : id = table.id
  · subst hid
    by_cases hnumber : number.toNat < content.size / table.pageSize
    · have hin : ¬ table.pageCount content ≤ number := by
        rw [UInt32.le_iff_toNat_le, hcount]
        omega
      simp only [ne_eq, not_true_eq_false, if_false, hin, hnumber, if_true, true_and]
      cases Page.parse ⟨table.id, number⟩ table.schema
        (content.slice (table.offset number) table.pageSize) <;> simp [Except.toOption]
    · have hout : table.pageCount content ≤ number := by
        rw [UInt32.le_iff_toNat_le, hcount]
        omega
      simp [hout, hnumber]
  · simp [hid]

/-- Above the limit, reading gives at most the pages of the file. -/
theorem filed?_of_readPage {address : PageAddress}
    (hread : table.readPage content address = .ok page) :
    address.table = table.id ∧ table.filed? content address.number = some page := by
  obtain ⟨id, number⟩ := address
  simp only [readPage] at hread
  split at hread
  · exact absurd hread (by simp)
  · rename_i hid
    simp only [ne_eq, Decidable.not_not] at hid
    subst hid
    split at hread
    · exact absurd hread (by simp)
    · rename_i hnumber
      have hle := pageCount_le table content
      rw [UInt32.le_iff_toNat_le] at hnumber
      have hin : number.toNat < content.size / table.pageSize := by omega
      refine ⟨rfl, ?_⟩
      simp [filed?, hin, hread, Except.toOption]

/-! ## Writing -/

/-- What the file is after a page was written. -/
structure Written (table : Table) (content : Content) (number : UInt32) (data : Bytes)
    (after : Content) : Prop where
  length : data.length = table.pageSize
  inside : table.offset number ≤ content.size
  result : after = content.splice (table.offset number) data

theorem written_of_writePage {armed : Failpoints}
    (hwrite : table.writePage armed content page = .ok after) :
    page.address.table = table.id ∧ armed.isEnabled heapWritePage = false ∧
      table.Written content page.address.number page.bytes after := by
  simp only [writePage] at hwrite
  split at hwrite
  · exact absurd hwrite (by simp)
  · rename_i hlength
    split at hwrite
    · exact absurd hwrite (by simp)
    · rename_i hplace
      simp only [ne_eq, Decidable.not_not] at hlength
      simp only [ne_eq, Bool.or_eq_true, decide_eq_true_eq, not_or, Decidable.not_not] at hplace
      -- The page count is taken modulo 2^32, so it may be too small but never too big.
      have hnumber : page.address.number.toNat ≤ content.size / table.pageSize := by
        have hle := pageCount_le table content
        have hin := hplace.2
        rw [UInt32.lt_iff_toNat_lt] at hin
        omega
      have hinside : table.offset page.address.number ≤ content.size :=
        Nat.le_trans (Nat.mul_le_mul_right _ hnumber) (Nat.div_mul_le_self _ _)
      simp only [writeAt, Failpoints.check] at hwrite
      split at hwrite
      · exact absurd hwrite (by simp [bind, Except.bind])
      · rename_i harmed
        refine ⟨hplace.1, by simpa using harmed, ⟨hlength, hinside, ?_⟩⟩
        exact (Except.ok.inj hwrite).symm

section

variable {data : Bytes}

theorem Written.toBytes (hwritten : table.Written content number data after) :
    after.toBytes = Bytes.splice (table.offset number) data content.toBytes := by
  rw [hwritten.result, Content.toBytes_splice]

theorem Written.size_eq (hwritten : table.Written content number data after) :
    after.size = max content.size (table.offset number + table.pageSize) := by
  rw [Content.size_eq_length, hwritten.toBytes, Bytes.length_splice, hwritten.length,
    Content.size_eq_length]

theorem Written.slice_same (hwritten : table.Written content number data after) :
    after.slice (table.offset number) table.pageSize = data := by
  have hinside := hwritten.inside
  rw [Content.size_eq_length] at hinside
  rw [Content.slice_eq, hwritten.toBytes, ← hwritten.length]
  exact Bytes.slice_splice_same hinside

/-- A page that is not written keeps its bytes. -/
theorem Written.slice_apart (hwritten : table.Written content number data after) {other : Nat}
    (hother : other ≠ number.toNat) :
    after.slice (other * table.pageSize) table.pageSize
      = content.slice (other * table.pageSize) table.pageSize := by
  have hinside := hwritten.inside
  rw [Content.size_eq_length] at hinside
  rw [Content.slice_eq, Content.slice_eq, hwritten.toBytes]
  -- The other page ends before the patch or starts behind it.
  rcases Nat.lt_or_gt_of_ne hother with hbefore | hbehind
  · apply Bytes.slice_splice_before hinside
    have hpages := Nat.mul_le_mul_right table.pageSize (Nat.succ_le_of_lt hbefore)
    rwa [Nat.succ_mul] at hpages
  · apply Bytes.slice_splice_behind hinside
    have hpages := Nat.mul_le_mul_right table.pageSize (Nat.succ_le_of_lt hbehind)
    rw [Nat.succ_mul] at hpages
    rw [hwritten.length]
    exact hpages

theorem Written.slice_other (hwritten : table.Written content number data after)
    {other : UInt32} (hother : other ≠ number) :
    after.slice (table.offset other) table.pageSize
      = content.slice (table.offset other) table.pageSize :=
  hwritten.slice_apart fun heq => hother (UInt32.toNat_inj.mp heq)

/-- A page written in its place leaves the length of the file alone. -/
theorem Written.size_inside (hwritten : table.Written content number data after)
    (hnumber : number.toNat < content.size / table.pageSize) : after.size = content.size := by
  have hend := offset_add_le hnumber
  rw [hwritten.size_eq]
  omega

theorem Written.filed?_other (hwritten : table.Written content number data after)
    (hnumber : number.toNat < content.size / table.pageSize) {other : UInt32}
    (hother : other ≠ number) : table.filed? after other = table.filed? content other := by
  simp only [filed?, hwritten.size_inside hnumber, hwritten.slice_other hother]

/-- The page that was written is the page of the file: clean, and with its bytes as the former
ones. -/
theorem Written.filed?_same (hwritten : table.Written content number page.bytes after)
    (hnumber : number.toNat < content.size / table.pageSize)
    (haddress : page.address = ⟨table.id, number⟩) (hschema : page.schema = table.schema)
    (hsound : page.Sound) :
    table.filed? after number = some ((page.withOwner none).snapshot).normal := by
  have hparse := Page.parse_bytes hsound
  rw [haddress, hschema] at hparse
  simp [filed?, hwritten.size_inside hnumber, hnumber, hwritten.slice_same, hparse,
    Except.toOption]

end

/-! ## Growing -/

theorem appended_of_appendPage {armed : Failpoints} {address : PageAddress}
    (happend : table.appendPage armed content = .ok (address, after)) :
    address = ⟨table.id, table.pageCount content⟩ ∧
      table.Written content (table.pageCount content) (Bytes.zeros table.pageSize) after := by
  simp only [appendPage, writeAt, Failpoints.check] at happend
  split at happend
  · exact absurd happend (by simp [bind, Except.bind])
  · have hpair := Except.ok.inj happend
    simp only [Prod.mk.injEq] at hpair
    obtain ⟨haddress, hafter⟩ := hpair
    have hinside : table.offset (table.pageCount content) ≤ content.size :=
      Nat.le_trans (Nat.mul_le_mul_right _ (pageCount_le table content))
        (Nat.div_mul_le_self _ _)
    exact ⟨haddress.symm, ⟨Bytes.length_zeros _, hinside, hafter.symm⟩⟩

/-- A page behind the last one makes the file longer by one page. -/
theorem Written.count_behind {data : Bytes} (hpos : 0 < table.pageSize)
    (hnumber : number.toNat = content.size / table.pageSize)
    (hwritten : table.Written content number data after) :
    after.size / table.pageSize = content.size / table.pageSize + 1 := by
  have hoffset : table.offset number = content.size / table.pageSize * table.pageSize := by
    rw [offset, hnumber]
  have hrest := Nat.div_add_mod content.size table.pageSize
  have hlt := Nat.mod_lt content.size hpos
  -- Bytes behind the last whole page are overwritten by the new page.
  have hsize : after.size = (content.size / table.pageSize + 1) * table.pageSize := by
    rw [hwritten.size_eq, hoffset, Nat.add_mul, Nat.one_mul]
    rw [Nat.mul_comm] at hrest
    omega
  rw [hsize, Nat.mul_div_cancel _ hpos]

theorem Written.count_appended {data : Bytes} (hpos : 0 < table.pageSize)
    (hsmall : table.Small content)
    (hwritten : table.Written content (table.pageCount content) data after) :
    after.size / table.pageSize = content.size / table.pageSize + 1 :=
  hwritten.count_behind hpos (pageCount_of_small hsmall)

theorem Written.filed?_appended {data : Bytes} (hpos : 0 < table.pageSize)
    (hsmall : table.Small content)
    (hwritten : table.Written content (table.pageCount content) data after) {other : UInt32}
    (hother : other ≠ table.pageCount content) :
    table.filed? after other = table.filed? content other := by
  have hcount := pageCount_of_small hsmall
  have hnumbers : other.toNat ≠ (table.pageCount content).toNat :=
    fun heq => hother (UInt32.toNat_inj.mp heq)
  have hin : other.toNat < content.size / table.pageSize + 1 ↔
      other.toNat < content.size / table.pageSize := by omega
  simp only [filed?, hwritten.count_appended hpos hsmall, hin, hwritten.slice_other hother]

/-- There was no page yet behind the last one. -/
theorem filed?_pageCount (hsmall : table.Small content) :
    table.filed? content (table.pageCount content) = none := by
  simp [filed?, pageCount_of_small hsmall]

end Table

end HeapStore
