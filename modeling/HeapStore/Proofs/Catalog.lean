import HeapStore.Proofs.File
import HeapStore.Store.Basic

/-!
# Sound catalogs

`Catalog.Sound` says what holds of every catalog of a store: the identity of a table is that of
its file, and all tables have the page size of the catalog.  So two registered tables with one
file are the same table.  `Catalog.filed?` looks a page up in the file of its table.
-/

namespace HeapStore

theorem Table.of_openFile {disk made : Disk} {path : String} {schema : Schema} {pageSize : Nat}
    {table : Table} (hopen : Table.openFile disk path schema pageSize = (.ok table, made)) :
    table.id = TableId.ofLocation table.location ∧ table.location ≠ [] := by
  unfold Table.openFile at hopen
  split at hopen
  · exact absurd (Prod.mk.inj hopen).1 (by simp)
  · split at hopen
    · exact absurd (Prod.mk.inj hopen).1 (by simp)
    · rename_i location opened hfile
      obtain rfl := Except.ok.inj (Prod.mk.inj hopen).1
      exact ⟨rfl, Disk.location_ne_nil_of_openFile hfile⟩

namespace Catalog

variable {catalog : Catalog} {id : TableId} {table : Table}

/-- What holds of every catalog of a store. -/
structure Sound (catalog : Catalog) : Prop where
  pos : 0 < catalog.pageSize
  size : ∀ entry ∈ catalog.entries, entry.table.pageSize = catalog.pageSize
  id : ∀ entry ∈ catalog.entries, entry.table.id = TableId.ofLocation entry.table.location
  location : ∀ entry ∈ catalog.entries, entry.table.location ≠ []

theorem of_table (htable : catalog.table id = .ok table) :
    table.id = id ∧ ∃ entry ∈ catalog.entries, entry.table = table := by
  simp only [Catalog.table, entry] at htable
  cases hentry : catalog.entry? id with
  | none => simp [hentry, Except.map] at htable
  | some entry =>
      simp only [hentry, Except.map, Except.ok.injEq] at htable
      subst htable
      have hid := List.find?_some hentry
      exact ⟨by simpa using hid, entry, List.mem_of_find?_eq_some hentry, rfl⟩

theorem Sound.pageSize_of_table (hsound : catalog.Sound) (htable : catalog.table id = .ok table) :
    table.pageSize = catalog.pageSize := by
  obtain ⟨-, entry, hentry, rfl⟩ := of_table htable
  exact hsound.size entry hentry

theorem Sound.location_of_table (hsound : catalog.Sound) (htable : catalog.table id = .ok table) :
    table.location ≠ [] := by
  obtain ⟨-, entry, hentry, rfl⟩ := of_table htable
  exact hsound.location entry hentry

/-- Tables with other identities have other files. -/
theorem Sound.location_ne (hsound : catalog.Sound) {id' : TableId} {table' : Table}
    (htable : catalog.table id = .ok table) (htable' : catalog.table id' = .ok table')
    (hid : id ≠ id') : table.location ≠ table'.location := by
  obtain ⟨heq, entry, hentry, rfl⟩ := of_table htable
  obtain ⟨heq', entry', hentry', rfl⟩ := of_table htable'
  intro hlocation
  apply hid
  rw [← heq, ← heq', hsound.id entry hentry, hsound.id entry' hentry', hlocation]

theorem sound_empty {pageSize : Nat} (hpos : 0 < pageSize) : (Catalog.empty pageSize).Sound :=
  ⟨hpos, by simp [empty], by simp [empty], by simp [empty]⟩

theorem sound_clear (hsound : catalog.Sound) : catalog.clear.Sound :=
  ⟨hsound.pos, by simp [clear], by simp [clear], by simp [clear]⟩

theorem pageSize_of_add {added : Catalog} {name : String} {primaryKey : Option String}
    (hadd : catalog.add table name primaryKey = .ok added) :
    added.pageSize = catalog.pageSize := by
  unfold add at hadd
  split at hadd
  · exact absurd hadd (by simp)
  · split at hadd
    · exact absurd hadd (by simp)
    · obtain rfl := Except.ok.inj hadd
      rfl

theorem sound_add {added : Catalog} {name : String} {primaryKey : Option String}
    (hsound : catalog.Sound) (hid : table.id = TableId.ofLocation table.location)
    (hlocation : table.location ≠ []) (hadd : catalog.add table name primaryKey = .ok added) :
    added.Sound := by
  unfold add at hadd
  split at hadd
  · exact absurd hadd (by simp)
  · rename_i hsize
    simp only [ne_eq, Decidable.not_not] at hsize
    split at hadd
    · exact absurd hadd (by simp)
    · obtain rfl := Except.ok.inj hadd
      -- an entry of the new catalog is an old one or the added one
      have hentries : ∀ {holds : CatalogEntry → Prop},
          (∀ entry ∈ catalog.entries, holds entry) → holds ⟨name, primaryKey, table⟩ →
          ∀ entry ∈ catalog.entries.filter (fun old =>
              old.name ≠ name && old.table.id ≠ table.id) ++ [⟨name, primaryKey, table⟩],
            holds entry := by
        intro holds hold hnew entry hentry
        rcases List.mem_append.mp hentry with hentry | hentry
        · exact hold entry (List.mem_filter.mp hentry).1
        · rw [List.mem_singleton.mp hentry]
          exact hnew
      exact ⟨hsound.pos, hentries hsound.size hsize, hentries hsound.id hid,
        hentries hsound.location hlocation⟩

/-! ## Pages of registered tables -/

/-- The page that the file of its table has at an address. -/
def filed? (catalog : Catalog) (disk : Disk) (address : PageAddress) : Option Page :=
  match catalog.table address.table with
  | .ok table => table.filed? (disk.content table.location) address.number
  | .error _ => none

theorem filed?_eq_of_table {address : PageAddress}
    (htable : catalog.table address.table = .ok table) (disk : Disk) :
    catalog.filed? disk address = table.filed? (disk.content table.location) address.number := by
  simp [filed?, htable]

theorem table_of_filed? {disk : Disk} {address : PageAddress} {page : Page}
    (hfiled : catalog.filed? disk address = some page) :
    ∃ table, catalog.table address.table = .ok table ∧
      table.filed? (disk.content table.location) address.number = some page := by
  unfold filed? at hfiled
  cases htable : catalog.table address.table with
  | error error => simp [htable] at hfiled
  | ok table => exact ⟨table, rfl, by simpa only [htable] using hfiled⟩

/-- The pages in the files have the size of the catalog. -/
theorem size_of_filed? (hsound : catalog.Sound) {disk : Disk} {address : PageAddress} {page : Page}
    (hfiled : catalog.filed? disk address = some page) : page.size = catalog.pageSize := by
  obtain ⟨table, htable, hpage⟩ := table_of_filed? hfiled
  rw [(Table.of_filed? hpage).2.2, hsound.pageSize_of_table htable]

/-- A write to the file of one table shows in the pages of this table only. -/
theorem filed?_write (hsound : catalog.Sound) (htable : catalog.table id = .ok table) (disk : Disk)
    (content : Content) (address : PageAddress) :
    catalog.filed? (disk.write table.location content) address =
      if address.table = id then table.filed? content address.number
      else catalog.filed? disk address := by
  have hlocation := hsound.location_of_table htable
  split
  · rename_i hid
    subst hid
    rw [filed?_eq_of_table htable, Disk.content_write_same disk hlocation]
  · rename_i hid
    unfold filed?
    cases hother : catalog.table address.table with
    | error error => rfl
    | ok other =>
        have hne := hsound.location_ne hother htable hid
        simp only [Disk.content_write_other disk hne]

end Catalog

end HeapStore
