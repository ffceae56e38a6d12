import HeapStore.Proofs.Order
import HeapStore.Proofs.Plain

/-!
# Cache and files agree

`Coherent store changed` says that the cache of the store and its files agree, and that these are
its changed pages: a cached page is one of them, or it is clean and equal to the page in its file;
every changed page is cached.  `Store.plain` then leaves the clean pages out.  Pages are compared
with the column names of their table (`Page.normal`).

The lemmas say which changes of both stores keep this: locks, a clean page that leaves, a page that
is loaded, changed, dropped, flushed or restored, a log record, and a table that grows.
-/

namespace HeapStore

theorem Log.location_after (log : Log) (disk : Disk) (tid : TransactionId) (record : LogRecord) :
    (log.after disk tid record).1.location = log.location := rfl

theorem Log.content_after (log : Log) (disk : Disk) (tid : TransactionId) (record : LogRecord)
    {location : Location} (hother : location ≠ log.location) :
    (log.after disk tid record).2.content location = disk.content location :=
  Disk.content_write_other disk hother _

namespace Catalog

variable {catalog : Catalog} {disk : Disk}

/-- Every table file has fewer pages than a number of 32 bits can count. -/
def Small (catalog : Catalog) (disk : Disk) : Prop :=
  ∀ entry ∈ catalog.entries, entry.table.Small (disk.content entry.table.location)

instance (catalog : Catalog) (disk : Disk) : Decidable (catalog.Small disk) :=
  inferInstanceAs (Decidable (∀ entry ∈ catalog.entries, _))

/-- No table file lies where the log lies. -/
def Apart (catalog : Catalog) (location : Location) : Prop :=
  ∀ entry ∈ catalog.entries, entry.table.location ≠ location

instance (catalog : Catalog) (location : Location) : Decidable (catalog.Apart location) :=
  inferInstanceAs (Decidable (∀ entry ∈ catalog.entries, _))

theorem Small.of_table (hsmall : catalog.Small disk) {id : TableId} {table : Table}
    (htable : catalog.table id = .ok table) : table.Small (disk.content table.location) := by
  obtain ⟨-, entry, hentry, rfl⟩ := Catalog.of_table htable
  exact hsmall entry hentry

theorem Apart.of_table {location : Location} (hapart : catalog.Apart location) {id : TableId}
    {table : Table} (htable : catalog.table id = .ok table) : table.location ≠ location := by
  obtain ⟨-, entry, hentry, rfl⟩ := Catalog.of_table htable
  exact hapart entry hentry

/-- Only the contents of table files matter for their pages. -/
theorem filed?_congr {after : Disk}
    (hsame : ∀ entry ∈ catalog.entries,
      after.content entry.table.location = disk.content entry.table.location) :
    catalog.filed? after = catalog.filed? disk := by
  funext address
  unfold filed?
  cases htable : catalog.table address.table with
  | error error => rfl
  | ok table =>
      obtain ⟨-, entry, hentry, rfl⟩ := of_table htable
      simp only [hsame entry hentry]

theorem small_congr {after : Disk}
    (hsame : ∀ entry ∈ catalog.entries,
      (after.content entry.table.location).size = (disk.content entry.table.location).size)
    (hsmall : catalog.Small disk) : catalog.Small after := by
  intro entry hentry
  have hsize := hsmall entry hentry
  simp only [Table.Small, hsame entry hentry] at hsize ⊢
  exact hsize

theorem read_of_filed? (hsmall : catalog.Small disk) {address : PageAddress} {page : Page}
    (hfiled : catalog.filed? disk address = some page) : catalog.read disk address = .ok page := by
  obtain ⟨table, htable, hpage⟩ := table_of_filed? hfiled
  obtain ⟨hid, -⟩ := of_table htable
  simp only [read, htable]
  exact (Table.readPage_eq_ok_iff (hsmall.of_table htable)).mpr ⟨hid.symm, hpage⟩

theorem filed?_of_read {address : PageAddress} {page : Page}
    (hread : catalog.read disk address = .ok page) : catalog.filed? disk address = some page := by
  obtain ⟨table, htable, hpage⟩ := table_of_read hread
  simp only [filed?, htable]
  exact (Table.filed?_of_readPage hpage).2

/-- A page in a file is clean and reads as itself. -/
structure Filed (address : PageAddress) (page : Page) : Prop where
  address : page.address = address
  owner : page.owner = none
  normal : page.normal = page
  sound : page.Sound

theorem of_filed? {address : PageAddress} {page : Page}
    (hfiled : catalog.filed? disk address = some page) : Filed address page := by
  obtain ⟨table, htable, hpage⟩ := table_of_filed? hfiled
  obtain ⟨hid, -⟩ := of_table htable
  obtain ⟨-, hread, -⟩ := Table.of_filed? hpage
  refine ⟨?_, hread.owner, hread.normal, hread.sound⟩
  rw [hread.address, hid]

theorem small_logged {log : Log} (hapart : catalog.Apart log.location) (tid : TransactionId)
    (record : LogRecord) (hsmall : catalog.Small disk) :
    catalog.Small (log.after disk tid record).2 := by
  apply small_congr _ hsmall
  intro entry hentry
  rw [Log.content_after _ _ _ _ (hapart entry hentry)]

/-- What a write in a flush needs, and what it does to the disk. -/
theorem of_write {armed : Failpoints} {page : Page} {after : Disk}
    (hwrite : catalog.write armed disk page = .ok after) :
    armed.isEnabled flushAfterForce = false ∧ armed.isEnabled heapWritePage = false ∧
      ∃ table content, catalog.table page.address.table = .ok table ∧
        table.Written (disk.content table.location) page.address.number page.bytes content ∧
        after = disk.write table.location content := by
  simp only [Catalog.write, Failpoints.check] at hwrite
  cases hforce : armed.isEnabled flushAfterForce with
  | true => simp [hforce] at hwrite
  | false =>
      simp only [hforce, Bool.false_eq_true, if_false] at hwrite
      cases htable : catalog.table page.address.table with
      | error error => simp [htable] at hwrite
      | ok table =>
          simp only [htable] at hwrite
          cases hpage : table.writePage armed (disk.content table.location) page with
          | error error => simp [hpage, Except.map] at hwrite
          | ok content =>
              simp only [hpage, Except.map, Except.ok.injEq] at hwrite
              obtain ⟨-, harmed, hwritten⟩ := Table.written_of_writePage hpage
              exact ⟨rfl, harmed, table, content, rfl, hwritten, hwrite.symm⟩

/-- A page that was written over the one in its place is the page in its file, and all other pages
stay. -/
theorem filed?_of_write (hsound : catalog.Sound) {armed : Failpoints} {page former : Page}
    {after : Disk} (hpage : page.Sound) (hformer : catalog.filed? disk page.address = some former)
    (hschema : former.schema = page.schema) (hwrite : catalog.write armed disk page = .ok after)
    (other : PageAddress) :
    catalog.filed? after other =
      if other = page.address then some page.settled.normal else catalog.filed? disk other := by
  obtain ⟨-, -, table, content, htable, hwritten, rfl⟩ := of_write hwrite
  obtain ⟨hid, -⟩ := of_table htable
  rw [filed?_eq_of_table htable] at hformer
  obtain ⟨hnumber, hread, -⟩ := Table.of_filed? hformer
  have haddress : page.address = ⟨table.id, page.address.number⟩ := by rw [hid]
  have hsame := hwritten.filed?_same hnumber haddress (hschema.symm.trans hread.schema) hpage
  rw [filed?_write hsound htable]
  by_cases hother : other = page.address
  · subst hother
    rw [if_pos rfl, if_pos rfl]
    exact hsame
  · rw [if_neg hother]
    by_cases htables : other.table = page.address.table
    -- Another page of the same table keeps its place in the file.
    · have hnumbers : other.number ≠ page.address.number := by
        intro heq
        apply hother
        rw [haddress, hid, ← heq, ← htables]
      have hown : catalog.table other.table = .ok table := by rw [htables, htable]
      rw [if_pos htables, hwritten.filed?_other hnumber hnumbers, filed?_eq_of_table hown]
    · rw [if_neg htables]

/-- A page written over the one in its place leaves the lengths of the files alone. -/
theorem small_of_write {armed : Failpoints} {page former : Page} {after : Disk}
    (hformer : catalog.filed? disk page.address = some former)
    (hwrite : catalog.write armed disk page = .ok after) (hsmall : catalog.Small disk) :
    catalog.Small after := by
  obtain ⟨-, -, table, content, htable, hwritten, rfl⟩ := of_write hwrite
  rw [filed?_eq_of_table htable] at hformer
  obtain ⟨hnumber, -⟩ := Table.of_filed? hformer
  apply small_congr _ hsmall
  intro entry hentry
  by_cases hlocation : entry.table.location = table.location
  · by_cases hroot : table.location = []
    · simp [hlocation, hroot, Disk.content, Disk.entry?]
    · rw [hlocation, Disk.content_write_same disk hroot, hwritten.size_inside hnumber]
  · rw [Disk.content_write_other disk hlocation]

theorem write_normal (armed : Failpoints) (page : Page) :
    catalog.write armed disk page.normal = catalog.write armed disk page := by
  simp only [Catalog.write, Table.writePage, Page.bytes_normal, Page.address_normal]
  rfl

end Catalog

namespace PlainStore

/-- What holds of a changed page: it is marked, its table file has a page in its place, and its
former bytes are those of that page. -/
structure Changed (catalog : Catalog) (disk : Disk) (page : Page) : Prop where
  owner : page.owner.isSome = true
  normal : page.normal = page
  sound : page.Sound
  filed : ∃ former, catalog.filed? disk page.address = some former ∧
    former.schema = page.schema ∧ former.size = page.size ∧ former.before = page.before

/-- What holds of every plain store. -/
structure Sound (plain : PlainStore) : Prop where
  catalog : plain.catalog.Sound
  apart : plain.catalog.Apart plain.log.location
  addresses : (plain.changed.map (·.address)).Nodup
  changed : ∀ page ∈ plain.changed, Changed plain.catalog plain.disk page

variable {plain : PlainStore} {address : PageAddress} {page : Page}

theorem Sound.changed?_eq_some_iff (hsound : plain.Sound) :
    plain.changed? address = some page ↔ page ∈ plain.changed ∧ page.address = address :=
  find?_key_eq_some_iff (fun page : Page => page.address) hsound.addresses

theorem mem_drop : page ∈ (plain.drop address).changed ↔
    page ∈ plain.changed ∧ page.address ≠ address := by
  simp [drop]

theorem sound_drop (hsound : plain.Sound) (address : PageAddress) :
    (plain.drop address).Sound := by
  have hsub : (plain.drop address).changed.Sublist plain.changed := List.filter_sublist
  exact ⟨hsound.catalog, hsound.apart, hsound.addresses.sublist (hsub.map _),
    fun page hpage => hsound.changed page (hsub.subset hpage)⟩

theorem sound_put (hsound : plain.Sound) (hpage : Changed plain.catalog plain.disk page) :
    (plain.put page).Sound := by
  have hdrop := sound_drop hsound page.address
  refine ⟨hsound.catalog, hsound.apart, ?_, ?_⟩
  · simp only [put, List.map_cons]
    refine List.nodup_cons.mpr ⟨?_, hdrop.addresses⟩
    intro hmem
    obtain ⟨other, hother, haddress⟩ := List.mem_map.mp hmem
    exact (mem_drop.mp hother).2 haddress
  · intro other hother
    rcases List.mem_cons.mp hother with rfl | hother
    · exact hpage
    · exact hdrop.changed other hother

/-- Another disk will do if the files have the pages that were changed. -/
theorem Sound.withDisk (hsound : plain.Sound) {disk : Disk}
    (hsame : ∀ page ∈ plain.changed,
      plain.catalog.filed? disk page.address = plain.catalog.filed? plain.disk page.address) :
    Sound { plain with disk := disk } := by
  refine ⟨hsound.catalog, hsound.apart, hsound.addresses, ?_⟩
  intro page hpage
  have hchanged := hsound.changed page hpage
  refine ⟨hchanged.owner, hchanged.normal, hchanged.sound, ?_⟩
  rw [hsame page hpage]
  exact hchanged.filed

end PlainStore

/-- The store without clean cached pages, where these are the changed ones. -/
def Store.plain (store : Store) (changed : List Page) : PlainStore where
  disk := store.disk
  armed := store.armed
  log := store.log
  catalog := store.catalog
  capacity := store.pool.settings.capacity
  changed := changed
  locks := store.pool.locks
  nextTransaction := store.nextTransaction

section

variable (store : Store) (changed : List Page)

@[simp] theorem Store.plain_disk : (store.plain changed).disk = store.disk := rfl

@[simp] theorem Store.plain_armed : (store.plain changed).armed = store.armed := rfl

@[simp] theorem Store.plain_catalog : (store.plain changed).catalog = store.catalog := rfl

@[simp] theorem Store.plain_locks : (store.plain changed).locks = store.pool.locks := rfl

variable {store changed}

/-- Whether the tables are small can be seen in the plain store. -/
theorem Store.small_of_plain {plain : PlainStore} (hplain : store.plain changed = plain)
    (hsmall : plain.catalog.Small plain.disk) : store.catalog.Small store.disk := by
  subst hplain
  exact hsmall

end

/-- Cache and files of the store agree, and these are its changed pages. -/
structure Coherent (store : Store) (changed : List Page) : Prop where
  pool : store.pool.Sound
  sound : (store.plain changed).Sound
  frames : ∀ frame ∈ store.pool.resident, frame.page.normal ∈ changed ∨
    (frame.page.owner = none ∧
      store.catalog.filed? store.disk frame.page.address = some frame.page.normal)
  cached : ∀ page ∈ changed, ∃ frame ∈ store.pool.resident, frame.page.normal = page

namespace Coherent

variable {store : Store} {changed : List Page} {frame : Frame} {page : Page}
  {address : PageAddress}

/-! ## Changed pages and frames -/

theorem changed?_eq_some_iff (hcoherent : Coherent store changed) :
    (store.plain changed).changed? address = some page ↔ page ∈ changed ∧ page.address = address :=
  hcoherent.sound.changed?_eq_some_iff

theorem owner_of_mem (hcoherent : Coherent store changed) (hpage : page ∈ changed) :
    page.owner.isSome = true :=
  (hcoherent.sound.changed page hpage).owner

/-- The changed frames are those of the changed pages. -/
theorem normal_mem_iff (hcoherent : Coherent store changed) (hframe : frame ∈ store.pool.resident) :
    frame.page.normal ∈ changed ↔ frame.page.owner.isSome = true := by
  constructor
  · intro hmem
    have hdirty : frame.page.normal.owner.isSome = true := hcoherent.owner_of_mem hmem
    exact hdirty
  · intro hdirty
    rcases hcoherent.frames frame hframe with hmem | ⟨hclean, -⟩
    · exact hmem
    · rw [hclean] at hdirty
      simp at hdirty

theorem filed_of_clean (hcoherent : Coherent store changed) (hframe : frame ∈ store.pool.resident)
    (hclean : frame.page.owner = none) :
    store.catalog.filed? store.disk frame.page.address = some frame.page.normal := by
  rcases hcoherent.frames frame hframe with hmem | ⟨-, hfiled⟩
  · have hdirty := hcoherent.owner_of_mem hmem
    simp [hclean] at hdirty
  · exact hfiled

/-- The file has a page in the place of every cached one, and its former bytes. -/
theorem filed_of_mem (hcoherent : Coherent store changed) (hframe : frame ∈ store.pool.resident) :
    ∃ former, store.catalog.filed? store.disk frame.page.address = some former ∧
      former.schema = frame.page.schema ∧ former.size = frame.page.size ∧
      former.before = frame.page.before := by
  rcases hcoherent.frames frame hframe with hmem | ⟨-, hfiled⟩
  · exact (hcoherent.sound.changed _ hmem).filed
  · exact ⟨_, hfiled, rfl, rfl, rfl⟩

theorem sound_normal (hcoherent : Coherent store changed) (hframe : frame ∈ store.pool.resident) :
    frame.page.normal.Sound := by
  rcases hcoherent.frames frame hframe with hmem | ⟨-, hfiled⟩
  · exact (hcoherent.sound.changed _ hmem).sound
  · exact (Catalog.of_filed? hfiled).sound

/-- The changed page with the address of a frame is that of the frame. -/
theorem eq_normal_of_address (hcoherent : Coherent store changed)
    (hframe : frame ∈ store.pool.resident) (hpage : page ∈ changed)
    (haddress : page.address = frame.page.address) : frame.page.normal = page := by
  obtain ⟨other, hother, rfl⟩ := hcoherent.cached page hpage
  rw [hcoherent.pool.eq_of_address hframe hother haddress.symm]

theorem changed?_of_dirty (hcoherent : Coherent store changed)
    (hframe : frame ∈ store.pool.resident) (hdirty : frame.page.owner.isSome = true) :
    (store.plain changed).changed? frame.page.address = some frame.page.normal :=
  hcoherent.changed?_eq_some_iff.mpr ⟨(hcoherent.normal_mem_iff hframe).mpr hdirty, rfl⟩

theorem changed?_of_clean (hcoherent : Coherent store changed)
    (hframe : frame ∈ store.pool.resident) (hclean : frame.page.owner = none) :
    (store.plain changed).changed? frame.page.address = none := by
  cases hchanged : (store.plain changed).changed? frame.page.address with
  | none => rfl
  | some page =>
      obtain ⟨hpage, haddress⟩ := hcoherent.changed?_eq_some_iff.mp hchanged
      -- A changed page at this address would be the clean one of the frame.
      have hnormal := hcoherent.eq_normal_of_address hframe hpage haddress
      have hdirty := hcoherent.owner_of_mem hpage
      rw [← hnormal] at hdirty
      simp [hclean] at hdirty

theorem changed?_of_uncached (hcoherent : Coherent store changed)
    (hfind : store.pool.find? address = none) :
    (store.plain changed).changed? address = none := by
  cases hchanged : (store.plain changed).changed? address with
  | none => rfl
  | some page =>
      obtain ⟨hpage, haddress⟩ := hcoherent.changed?_eq_some_iff.mp hchanged
      obtain ⟨frame, hframe, rfl⟩ := hcoherent.cached page hpage
      have hsome := hcoherent.pool.find?_eq_some_iff.mpr ⟨hframe, haddress⟩
      rw [hfind] at hsome
      exact absurd hsome (by simp)

/-- The changed pages are those of the changed frames. -/
theorem perm_changed (hcoherent : Coherent store changed) :
    ((store.pool.resident.filter (·.page.owner.isSome)).map (·.page.normal)).Perm changed := by
  -- Neither list has an address twice, so the same members are enough.
  have hnodup : ((store.pool.resident.filter (·.page.owner.isSome)).map (·.page.normal)).Nodup := by
    have hsub : (store.pool.resident.filter (·.page.owner.isSome)).Sublist store.pool.resident :=
      List.filter_sublist
    have haddresses : (store.pool.resident.map fun frame => frame.page.address).Nodup :=
      hcoherent.pool.addresses
    apply List.Nodup.of_map (·.address)
    rw [List.map_map]
    exact haddresses.sublist (hsub.map _)
  have hchanged : changed.Nodup := List.Nodup.of_map _ hcoherent.sound.addresses
  rw [List.perm_ext_iff_of_nodup hnodup hchanged]
  intro page
  rw [List.mem_map]
  constructor
  · rintro ⟨frame, hframe, rfl⟩
    obtain ⟨hmem, hdirty⟩ := List.mem_filter.mp hframe
    exact (hcoherent.normal_mem_iff hmem).mpr hdirty
  · intro hpage
    obtain ⟨frame, hframe, rfl⟩ := hcoherent.cached page hpage
    have hdirty := (hcoherent.normal_mem_iff hframe).mp hpage
    exact ⟨frame, List.mem_filter.mpr ⟨hframe, hdirty⟩, rfl⟩

theorem length_changed (hcoherent : Coherent store changed) :
    changed.length = (store.pool.resident.filter (·.page.owner.isSome)).length := by
  rw [← hcoherent.perm_changed.length_eq, List.length_map]

/-- Both stores flush the pages of a transaction in the same order. -/
theorem dirtiedBy_eq (hcoherent : Coherent store changed) (tid : TransactionId) :
    (store.plain changed).dirtiedBy tid = store.pool.dirtiedBy tid := by
  apply inOrder_perm
  -- The order is that of the addresses: it is enough that both have the same pages.
  have hperm := (hcoherent.perm_changed.filter (·.owner = some tid)).map (·.address)
  apply hperm.symm.trans
  rw [List.filter_map, List.filter_filter, List.map_map]
  apply List.Perm.of_eq
  show _ = (store.pool.resident.filter (·.page.owner = some tid)).map (·.page.address)
  congr 1
  apply List.filter_congr
  intro frame _
  cases howner : frame.page.owner with
  | none => simp [howner]
  | some owner => simp [howner]

/-- The changed pages in the order of their addresses are the cached ones that were changed. -/
theorem dirtied_eq (hcoherent : Coherent store changed) :
    (store.plain changed).dirtied =
      (inOrder PageAddress.precedes store.pool.cached).filter
        fun address => ((store.plain changed).changed? address).isSome := by
  rw [filter_inOrder]
  apply inOrder_perm
  apply (hcoherent.perm_changed.map (·.address)).symm.trans
  apply List.Perm.of_eq
  rw [List.map_map, Pool.cached, List.filter_map]
  congr 1
  apply List.filter_congr
  intro frame hframe
  show _ = ((store.plain changed).changed? frame.page.address).isSome
  cases howner : frame.page.owner with
  | none => simp [hcoherent.changed?_of_clean hframe howner]
  | some owner => simp [hcoherent.changed?_of_dirty hframe (by simp [howner])]

theorem length_changed_le (hcoherent : Coherent store changed) :
    changed.length ≤ store.pool.resident.length := by
  rw [hcoherent.length_changed]
  exact List.length_filter_le _ _

theorem length_changed_of_all (hcoherent : Coherent store changed)
    (hall : ∀ frame ∈ store.pool.resident, frame.page.owner.isSome = true) :
    changed.length = store.pool.resident.length := by
  rw [hcoherent.length_changed, List.filter_eq_self.mpr hall]

/-- A clean page in the cache leaves room: not every page that fits was changed. -/
theorem length_changed_lt (hcoherent : Coherent store changed)
    (hframe : frame ∈ store.pool.resident) (hclean : frame.page.owner = none) :
    changed.length < store.pool.settings.capacity := by
  rw [hcoherent.length_changed]
  apply Nat.lt_of_lt_of_le _ hcoherent.pool.room
  apply Nat.lt_of_le_of_ne (List.length_filter_le _ _)
  intro hall
  have hdirty := List.length_filter_eq_length_iff.mp hall frame hframe
  simp [hclean] at hdirty

/-! ## What keeps coherence -/

theorem withLocks (hcoherent : Coherent store changed) (locks : LockTable) :
    Coherent (store.withLocks locks) changed :=
  ⟨⟨hcoherent.pool.stamps, hcoherent.pool.addresses, hcoherent.pool.given, hcoherent.pool.room⟩,
    ⟨hcoherent.sound.catalog, hcoherent.sound.apart, hcoherent.sound.addresses,
      hcoherent.sound.changed⟩,
    hcoherent.frames, hcoherent.cached⟩

/-- Coherence is about cache, catalog, disk and the place of the log. -/
theorem congr (hcoherent : Coherent store changed) {other : Store}
    (hpool : other.pool = store.pool) (hcatalog : other.catalog = store.catalog)
    (hdisk : other.disk = store.disk) (hlog : other.log = store.log) : Coherent other changed := by
  obtain ⟨disk, armed, log, catalog, pool, nextTransaction⟩ := other
  simp only at hpool hcatalog hdisk hlog
  subst hpool hcatalog hdisk hlog
  exact ⟨hcoherent.pool, ⟨hcoherent.sound.catalog, hcoherent.sound.apart,
    hcoherent.sound.addresses, hcoherent.sound.changed⟩, hcoherent.frames, hcoherent.cached⟩

theorem roomier (hcoherent : Coherent store changed) {pool : Pool}
    (hroom : store.pool.Roomier pool) : Coherent (store.withPool pool) changed := by
  refine ⟨hroom.sound, ?_, ?_, ?_⟩
  · exact ⟨hcoherent.sound.catalog, hcoherent.sound.apart, hcoherent.sound.addresses,
      hcoherent.sound.changed⟩
  · intro frame hframe
    exact hcoherent.frames frame (hroom.kept frame hframe)
  · intro page hpage
    obtain ⟨frame, hframe, rfl⟩ := hcoherent.cached page hpage
    have hdirty := (hcoherent.normal_mem_iff hframe).mp hpage
    exact ⟨frame, hroom.dirty frame hframe hdirty, rfl⟩

theorem load (hcoherent : Coherent store changed)
    (hnew : page.address ∉ store.pool.cached)
    (hroom : store.pool.resident.length < store.pool.settings.capacity)
    (hfiled : store.catalog.filed? store.disk page.address = some page) :
    Coherent (store.withPool (store.pool.load page).2) changed := by
  have hread := Catalog.of_filed? hfiled
  refine ⟨Pool.sound_load hcoherent.pool hnew hroom, ?_, ?_, ?_⟩
  · exact ⟨hcoherent.sound.catalog, hcoherent.sound.apart, hcoherent.sound.addresses,
      hcoherent.sound.changed⟩
  · intro frame hframe
    rcases List.mem_append.mp hframe with hframe | hframe
    · exact hcoherent.frames frame hframe
    · rw [List.mem_singleton.mp hframe]
      refine Or.inr ⟨hread.owner, ?_⟩
      show store.catalog.filed? store.disk page.address = some page.normal
      rw [hread.normal, hfiled]
  · intro other hother
    obtain ⟨frame, hframe, hnormal⟩ := hcoherent.cached other hother
    exact ⟨frame, List.mem_append_left _ hframe, hnormal⟩

/-- A frame gets another content, a changed page or the page in the file, and nothing else changes,
neither in the cache nor in the files. -/
theorem replace (hcoherent : Coherent store changed) (hframe : frame ∈ store.pool.resident)
    (haddress : page.address = frame.page.address) {disk : Disk} {after : List Page}
    (hdisk : ∀ other, other ≠ frame.page.address →
      store.catalog.filed? disk other = store.catalog.filed? store.disk other)
    (hsound : (Store.plain { store with disk := disk } after).Sound)
    (hafter : ∀ other : Page, other.address ≠ frame.page.address →
      (other ∈ after ↔ other ∈ changed))
    (hpage : page.normal ∈ after ∨
      (page.owner = none ∧ store.catalog.filed? disk page.address = some page.normal))
    (honly : ∀ other ∈ after, other.address = frame.page.address → other = page.normal) :
    Coherent { store with disk := disk, pool := store.pool.replace frame.stamp page } after := by
  refine ⟨Pool.sound_replace hcoherent.pool hframe haddress, ?_, ?_, ?_⟩
  · exact ⟨hsound.catalog, hsound.apart, hsound.addresses, hsound.changed⟩
  -- A frame is the one that was replaced, or it has another address.
  · intro other hother
    rcases Pool.mem_replace.mp hother with ⟨hmem, hstamp⟩ | ⟨rfl, -⟩
    · have hne : other.page.normal.address ≠ frame.page.address := by
        intro heq
        exact hstamp (by rw [hcoherent.pool.eq_of_address hmem hframe heq])
      have hfiled := hdisk other.page.address hne
      rw [hafter other.page.normal hne]
      show _ ∨ (_ ∧ store.catalog.filed? disk other.page.address = _)
      rw [hfiled]
      exact hcoherent.frames other hmem
    · exact hpage
  -- A changed page with the address is the new content, any other one was cached before.
  · intro other hother
    by_cases heq : other.address = frame.page.address
    · refine ⟨⟨frame.stamp, page⟩, ?_, (honly other hother heq).symm⟩
      exact Pool.mem_replace.mpr (Or.inr ⟨rfl, frame, hframe, rfl⟩)
    · obtain ⟨kept, hkept, rfl⟩ := hcoherent.cached other ((hafter other heq).mp hother)
      refine ⟨kept, Pool.mem_replace.mpr (Or.inl ⟨hkept, ?_⟩), rfl⟩
      intro hstamp
      exact heq (by rw [hcoherent.pool.eq_of_stamp hkept hframe hstamp, Page.address_normal])

/-- A transaction changes the content of a frame. -/
theorem change (hcoherent : Coherent store changed) (hframe : frame ∈ store.pool.resident)
    (tid : TransactionId) (hsound : page.Sound) (haddress : page.address = frame.page.address)
    (hschema : page.schema = frame.page.schema) (hsize : page.size = frame.page.size)
    (hbefore : page.before = frame.page.before) :
    Coherent (store.withChange tid frame page)
      ((store.plain changed).put (page.withOwner (some tid)).normal).changed := by
  -- The former bytes stay those in the file until the page is flushed.
  have hchanged : PlainStore.Changed store.catalog store.disk
      (page.withOwner (some tid)).normal := by
    refine ⟨rfl, Page.normal_normal _, Page.sound_normal (Page.sound_withOwner hsound _), ?_⟩
    obtain ⟨former, hfiled, hformer⟩ := hcoherent.filed_of_mem hframe
    refine ⟨former, ?_, ?_⟩
    · show store.catalog.filed? store.disk page.address = some former
      rw [haddress, hfiled]
    · show former.schema = page.schema ∧ former.size = page.size ∧ former.before = page.before
      rw [hschema, hsize, hbefore]
      exact hformer
  have hput := PlainStore.sound_put hcoherent.sound hchanged
  have hmem : ∀ other : Page,
      other ∈ ((store.plain changed).put (page.withOwner (some tid)).normal).changed ↔
        other = (page.withOwner (some tid)).normal ∨
          (other ∈ changed ∧ other.address ≠ page.address) := by
    intro other
    show other ∈ _ :: _ ↔ _
    rw [List.mem_cons]
    exact or_congr Iff.rfl PlainStore.mem_drop
  have hplace : (page.withOwner (some tid)).address = frame.page.address := haddress
  refine hcoherent.replace hframe hplace (fun _ _ => rfl) hput ?_ (Or.inl ?_) ?_
  · intro other hother
    rw [hmem other, haddress]
    constructor
    · rintro (rfl | ⟨hold, -⟩)
      · exact absurd haddress hother
      · exact hold
    · intro hold
      exact Or.inr ⟨hold, hother⟩
  · exact (hmem _).mpr (Or.inl rfl)
  · intro other hother heq
    rcases (hmem other).mp hother with rfl | ⟨-, hne⟩
    · rfl
    · exact absurd (heq.trans haddress.symm) hne

theorem discard (hcoherent : Coherent store changed) (address : PageAddress) :
    Coherent (store.withPool (store.pool.discard address))
      ((store.plain changed).drop address).changed := by
  have hdrop := PlainStore.sound_drop hcoherent.sound address
  refine ⟨Pool.sound_depart hcoherent.pool _, ?_, ?_, ?_⟩
  · exact ⟨hdrop.catalog, hdrop.apart, hdrop.addresses, hdrop.changed⟩
  · intro frame hframe
    obtain ⟨hmem, hother⟩ := Pool.mem_depart.mp hframe
    rcases hcoherent.frames frame hmem with hchanged | hclean
    · exact Or.inl (PlainStore.mem_drop.mpr ⟨hchanged, by simpa using hother⟩)
    · exact Or.inr hclean
  · intro page hpage
    obtain ⟨hchanged, hother⟩ := PlainStore.mem_drop.mp hpage
    obtain ⟨frame, hframe, rfl⟩ := hcoherent.cached page hchanged
    exact ⟨frame, Pool.mem_depart.mpr ⟨hframe, by simpa using hother⟩, rfl⟩

/-- A frame gets the page in the file, which may have changed in this place and no other. -/
theorem settle (hcoherent : Coherent store changed) (hframe : frame ∈ store.pool.resident)
    (haddress : page.address = frame.page.address) (hclean : page.owner = none) {disk : Disk}
    (hdisk : ∀ other, other ≠ frame.page.address →
      store.catalog.filed? disk other = store.catalog.filed? store.disk other)
    (hfiled : store.catalog.filed? disk page.address = some page.normal) :
    Coherent { store with disk := disk, pool := store.pool.replace frame.stamp page }
      ((store.plain changed).drop frame.page.address).changed := by
  have hdrop := PlainStore.sound_drop hcoherent.sound frame.page.address
  have hsound : (Store.plain { store with disk := disk }
      ((store.plain changed).drop frame.page.address).changed).Sound := by
    apply PlainStore.Sound.withDisk hdrop
    intro other hother
    exact hdisk other.address (PlainStore.mem_drop.mp hother).2
  refine hcoherent.replace hframe haddress hdisk hsound ?_ (Or.inr ⟨hclean, hfiled⟩) ?_
  · intro other hother
    rw [PlainStore.mem_drop]
    exact and_iff_left hother
  · intro other hother heq
    exact absurd heq (PlainStore.mem_drop.mp hother).2

/-- The log is written, or a file changes where no cached page is. -/
theorem withDisk (hcoherent : Coherent store changed) {log : Log} {disk : Disk}
    (hlog : log.location = store.log.location)
    (hdisk : ∀ frame ∈ store.pool.resident,
      store.catalog.filed? disk frame.page.address
        = store.catalog.filed? store.disk frame.page.address) :
    Coherent { store with log := log, disk := disk } changed := by
  refine ⟨hcoherent.pool, ?_, ?_, hcoherent.cached⟩
  · have hsame : ∀ page ∈ changed,
        store.catalog.filed? disk page.address = store.catalog.filed? store.disk page.address := by
      intro page hpage
      obtain ⟨frame, hframe, rfl⟩ := hcoherent.cached page hpage
      exact hdisk frame hframe
    have hsound := hcoherent.sound.withDisk hsame
    refine ⟨hsound.catalog, ?_, hsound.addresses, hsound.changed⟩
    show store.catalog.Apart log.location
    rw [hlog]
    exact hsound.apart
  · intro frame hframe
    show _ ∨ (_ ∧ store.catalog.filed? disk frame.page.address = _)
    rw [hdisk frame hframe]
    exact hcoherent.frames frame hframe

theorem logged (hcoherent : Coherent store changed) (tid : TransactionId) (record : LogRecord) :
    Coherent (store.logged tid record) changed := by
  apply hcoherent.withDisk (Log.location_after _ _ _ _)
  intro frame _
  have hsame : store.catalog.filed? (store.log.after store.disk tid record).2
      = store.catalog.filed? store.disk := by
    apply Catalog.filed?_congr
    intro entry hentry
    exact Log.content_after _ _ _ _ (hcoherent.sound.apart entry hentry)
  rw [hsame]

end Coherent

end HeapStore
