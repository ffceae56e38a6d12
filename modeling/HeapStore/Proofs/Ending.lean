import HeapStore.Proofs.Guarded

/-!
# How transactions end

The pages that a transaction changed are flushed or restored one after the other.  While the
catalog stays as it is, only a failpoint can make a flush fail, and it makes the first one fail: so
either all pages reach their files or none does (`settled_or_stopped`).  A restore does not fail at
all.  A transaction that ends has no changed page and no lock any more, and the changes, the locks
and the files' rows of all others are as they were.
-/

namespace HeapStore

namespace Catalog

variable {catalog : Catalog} {disk : Disk}

theorem parse_of_filed? {address : PageAddress} {former : Page}
    (hfiled : catalog.filed? disk address = some former) :
    Page.parse former.address former.schema former.before = .ok former := by
  simp only [filed?] at hfiled
  cases htable : catalog.table address.table with
  | error error => simp [htable] at hfiled
  | ok table =>
      simp only [htable] at hfiled
      obtain ⟨hnumber, hread, -⟩ := Table.of_filed? hfiled
      simp only [Table.filed?, if_pos hnumber] at hfiled
      rw [hread.address, hread.schema, hread.before]
      exact ok_of_toOption hfiled

/-- The former page of one that has the former bytes in the file is the page in the file. -/
theorem beforeImage_of_filed? {page former : Page}
    (hfiled : catalog.filed? disk page.address = some former)
    (hschema : former.schema = page.schema) (hbefore : former.before = page.before) :
    page.beforeImage = .ok former := by
  rw [Page.beforeImage, ← hschema, ← hbefore, ← (of_filed? hfiled).address]
  exact parse_of_filed? hfiled

/-- A page goes over the one in its place unless a failpoint is armed. -/
theorem write_of_unarmed (hsmall : catalog.Small disk) {armed : Failpoints}
    (hforce : armed.isEnabled flushAfterForce = false)
    (hwrite : armed.isEnabled heapWritePage = false) {page former : Page} (hpage : page.Sound)
    (hfiled : catalog.filed? disk page.address = some former) (hsize : former.size = page.size) :
    ∃ after, catalog.write armed disk page = .ok after := by
  obtain ⟨table, htable, hfile⟩ := table_of_filed? hfiled
  obtain ⟨hid, -⟩ := of_table htable
  obtain ⟨hnumber, -, hpageSize⟩ := Table.of_filed? hfile
  have hlength : page.bytes.length = table.pageSize := by
    rw [Page.length_bytes hpage, ← hsize, hpageSize]
  -- A page that the file has is not behind its end.
  have hplace : ¬ table.pageCount (disk.content table.location) < page.address.number := by
    have hcount := Table.pageCount_of_small (hsmall.of_table htable)
    rw [UInt32.lt_iff_toNat_lt]
    omega
  have hpageWrite : table.writePage armed (disk.content table.location) page
      = .ok ((disk.content table.location).splice (table.offset page.address.number)
          page.bytes) := by
    simp [Table.writePage, hlength, hid, hplace, Table.writeAt, Failpoints.check, hwrite]
  refine ⟨disk.write table.location ((disk.content table.location).splice
    (table.offset page.address.number) page.bytes), ?_⟩
  simp [Catalog.write, Failpoints.check, hforce, htable, hpageWrite, Except.map]

end Catalog

/-- No flush gets through. -/
def Failpoints.blocked (armed : Failpoints) : Bool :=
  armed.isEnabled flushAfterForce || armed.isEnabled heapWritePage

namespace PlainStore

variable {plain after last : PlainStore} {tid : TransactionId} {address : PageAddress}
  {page : Page}

theorem standing_congr
    (hfiled : after.catalog.filed? after.disk = plain.catalog.filed? plain.disk)
    (hchanged : after.changed = plain.changed) : after.standing = plain.standing := by
  have hrows : after.catalog.rows after.disk = plain.catalog.rows plain.disk := by
    funext place
    simp only [Catalog.rows, hfiled]
  have hpages : after.changed? = plain.changed? := by
    funext address
    simp only [changed?, hchanged]
  simp only [standing, Standing.mk.injEq]
  refine ⟨hrows, ?_, ?_⟩
  · funext place
    simp only [present, hpages, hrows]
  · funext address
    simp only [owner?, hpages]

theorem changed?_drop (plain : PlainStore) (address other : PageAddress) :
    (plain.drop address).changed? other =
      if other = address then none else plain.changed? other := by
  simp only [changed?, drop, List.find?_filter]
  by_cases hother : other = address
  · rw [if_pos hother]
    apply List.find?_eq_none.mpr
    intro page _
    simp [hother]
  · rw [if_neg hother]
    congr 1
    funext page
    by_cases hpage : page.address = other
    · simp [hpage, hother]
    · simp [hpage]

/-- The store stands as said; it is sound, its files are small, and the locks and the failpoints
are as they were. -/
structure Moved (plain : PlainStore) (standing : Standing) (after : PlainStore) : Prop where
  sound : after.Sound
  small : after.catalog.Small after.disk
  standing : after.standing = standing
  locks : after.locks = plain.locks
  armed : after.armed = plain.armed

theorem Moved.refl (hsound : plain.Sound) (hsmall : plain.catalog.Small plain.disk) :
    plain.Moved plain.standing plain :=
  ⟨hsound, hsmall, rfl, rfl, rfl⟩

theorem filed?_logged (hsound : plain.Sound) (tid : TransactionId) (record : LogRecord) :
    plain.catalog.filed? (plain.logged tid record).disk = plain.catalog.filed? plain.disk := by
  apply Catalog.filed?_congr
  intro entry hentry
  exact Log.content_after _ _ _ _ (hsound.apart entry hentry)

/-- A log record changes no table. -/
theorem moved_logged (hsound : plain.Sound) (hsmall : plain.catalog.Small plain.disk)
    (tid : TransactionId) (record : LogRecord) :
    plain.Moved plain.standing (plain.logged tid record) := by
  have hfiled := filed?_logged hsound tid record
  have hafter : Sound { plain with disk := (plain.logged tid record).disk } :=
    hsound.withDisk fun page _ => congrFun hfiled page.address
  exact ⟨⟨hafter.catalog, hsound.apart, hafter.addresses, hafter.changed⟩,
    Catalog.small_logged hsound.apart tid record hsmall, standing_congr hfiled rfl, rfl, rfl⟩

/-! ## One page -/

theorem owner_of_changed (hsound : plain.Sound) (hchanged : plain.changed? address = some page) :
    ∃ owner, page.owner = some owner := by
  obtain ⟨hpage, -⟩ := hsound.changed?_eq_some_iff.mp hchanged
  exact Option.isSome_iff_exists.mp (hsound.changed page hpage).owner

/-- What the flush of a changed page comes to: a record of the page in the file and the changed one
for the transaction that changed it, then the write. -/
theorem flushPage_of_changed (hsound : plain.Sound)
    (hchanged : plain.changed? address = some page) :
    ∃ owner former, page.owner = some owner ∧
      plain.catalog.filed? plain.disk address = some former ∧
      let record := .update address former.bytes page.bytes
      plain.flushPage address =
        match plain.catalog.write plain.armed (plain.logged owner record).disk page with
        | .error error => (.error error, plain.logged owner record)
        | .ok disk =>
          (.ok (), { plain.logged owner record with disk := disk }.drop address) := by
  obtain ⟨owner, howner⟩ := owner_of_changed hsound hchanged
  obtain ⟨hpage, rfl⟩ := hsound.changed?_eq_some_iff.mp hchanged
  obtain ⟨former, hfiled, hschema, -, hbefore⟩ := (hsound.changed page hpage).filed
  have himage := Catalog.beforeImage_of_filed? hfiled hschema hbefore
  refine ⟨owner, former, howner, hfiled, ?_⟩
  simp only [flushPage, hchanged, howner, himage]
  rfl

theorem flushPage_of_blocked (hsound : plain.Sound) (hblocked : plain.armed.blocked = true)
    (hchanged : plain.changed? address = some page) :
    ∃ error tid record, plain.flushPage address = (.error error, plain.logged tid record) := by
  obtain ⟨tid, former, -, -, hflush⟩ := flushPage_of_changed hsound hchanged
  generalize LogRecord.update address former.bytes page.bytes = record at hflush
  cases hwrite : plain.catalog.write plain.armed (plain.logged tid record).disk page with
  | error error =>
      simp only [hwrite] at hflush
      exact ⟨error, tid, record, hflush⟩
  | ok disk =>
      obtain ⟨hforce, hpage, -⟩ := Catalog.of_write hwrite
      simp [Failpoints.blocked, hforce, hpage] at hblocked

/-- A page without changes is settled already. -/
theorem settled_of_unchanged (hchanged : plain.changed? address = none) :
    plain.standing.settled (· = address) = plain.standing := by
  simp only [standing, Standing.settled, Standing.mk.injEq]
  refine ⟨?_, trivial, ?_⟩
  · funext place
    split
    · rename_i hplace
      rw [decide_eq_true_eq] at hplace
      simp only [present, hplace, hchanged]
    · rfl
  · funext other
    split
    · rename_i hother
      rw [decide_eq_true_eq] at hother
      simp only [owner?, hother, hchanged, Option.bind_none]
    · rfl

/-- The page went to the file, and is no longer among the changed ones: it is present as before. -/
theorem standing_eq_settled (hchanged : plain.changed? address = some page)
    (hrows : ∀ place, after.catalog.rows after.disk place =
      if place.page = address then page.fields? place.slot
      else plain.catalog.rows plain.disk place)
    (hpages : ∀ other, after.changed? other =
      if other = address then none else plain.changed? other) :
    after.standing = plain.standing.settled (· = address) := by
  simp only [standing, Standing.settled, Standing.mk.injEq]
  refine ⟨?_, ?_, ?_⟩
  · funext place
    rw [hrows place]
    by_cases hplace : place.page = address
    · simp only [hplace, present, hchanged, if_true, decide_true]
    · simp only [hplace, if_false, decide_false, Bool.false_eq_true]
  · funext place
    simp only [present, hpages]
    by_cases hplace : place.page = address
    · rw [if_pos hplace, hplace, hchanged]
      simp only [hrows, if_pos hplace]
    · rw [if_neg hplace]
      simp only [hrows, if_neg hplace]
  · funext other
    simp only [owner?, hpages]
    by_cases hother : other = address
    · simp [hother]
    · simp [hother]

/-- The page is no longer among the changed ones, and its file is as it was. -/
theorem standing_eq_reverted
    (hrows : after.catalog.rows after.disk = plain.catalog.rows plain.disk)
    (hpages : ∀ other, after.changed? other =
      if other = address then none else plain.changed? other) :
    after.standing = plain.standing.reverted (· = address) := by
  simp only [standing, Standing.reverted, Standing.mk.injEq]
  refine ⟨hrows, ?_, ?_⟩
  · funext place
    simp only [present, hpages, hrows]
    by_cases hplace : place.page = address
    · simp [hplace]
    · simp [hplace]
  · funext other
    simp only [owner?, hpages]
    by_cases hother : other = address
    · simp [hother]
    · simp [hother]

/-- A changed page that was logged and written is in its file now, and no longer changed. -/
theorem moved_written (hsound : plain.Sound) (hsmall : plain.catalog.Small plain.disk)
    (hchanged : plain.changed? address = some page) {record : LogRecord} {disk : Disk}
    (hwrite : plain.catalog.write plain.armed (plain.logged tid record).disk page = .ok disk) :
    plain.Moved (plain.standing.settled (· = address))
      ({ plain.logged tid record with disk := disk }.drop address) := by
  obtain ⟨hmem, rfl⟩ := hsound.changed?_eq_some_iff.mp hchanged
  have hpage := hsound.changed page hmem
  obtain ⟨former, hfiled, hschema, -, -⟩ := hpage.filed
  have hlogged := moved_logged hsound hsmall tid record
  have hkept := filed?_logged hsound tid record
  rw [← hkept] at hfiled
  have hafter := Catalog.filed?_of_write hsound.catalog hpage.sound hfiled hschema hwrite
  refine ⟨?_, ?_, ?_, rfl, rfl⟩
  -- the page that was written is no longer among the changed ones; all others are as they were
  · have hdropped := sound_drop hlogged.sound page.address
    apply hdropped.withDisk
    intro other hother
    have hne := (mem_drop.mp hother).2
    exact (hafter other.address).trans (if_neg hne)
  · exact Catalog.small_of_write hfiled hwrite hlogged.small
  · apply standing_eq_settled hchanged
    · intro place
      show plain.catalog.rows disk place = _
      simp only [Catalog.rows, hafter place.page, hkept]
      split
      · simp
      · rfl
    · exact fun other => changed?_drop _ page.address other

/-- A flush takes the changes of its page to the file, or it fails and no row has changed. -/
theorem flushed_or_stopped (hsound : plain.Sound) (hsmall : plain.catalog.Small plain.disk)
    (address : PageAddress) :
    ((plain.flushPage address).1 = .ok () ∧
      plain.Moved (plain.standing.settled (· = address)) (plain.flushPage address).2) ∨
    ((∃ error, (plain.flushPage address).1 = .error error) ∧
      plain.Moved plain.standing (plain.flushPage address).2) := by
  cases hchanged : plain.changed? address with
  | none =>
      have hflush : plain.flushPage address = (.ok (), plain) := by
        simp only [flushPage, hchanged]
      rw [settled_of_unchanged hchanged, hflush]
      exact Or.inl ⟨rfl, .refl hsound hsmall⟩
  | some page =>
      obtain ⟨owner, former, -, -, hflush⟩ := flushPage_of_changed hsound hchanged
      generalize LogRecord.update address former.bytes page.bytes = record at hflush
      cases hwrite : plain.catalog.write plain.armed (plain.logged owner record).disk page with
      | error error =>
          simp only [hwrite] at hflush
          rw [hflush]
          exact Or.inr ⟨⟨error, rfl⟩, moved_logged hsound hsmall owner record⟩
      | ok disk =>
          simp only [hwrite] at hflush
          rw [hflush]
          exact Or.inl ⟨rfl, moved_written hsound hsmall hchanged hwrite⟩

/-- Without a failpoint a flush takes the changes of its page to the file. -/
theorem moved_flushPage (hsound : plain.Sound) (hsmall : plain.catalog.Small plain.disk)
    (hblocked : plain.armed.blocked = false) (address : PageAddress) :
    (plain.flushPage address).1 = .ok () ∧
      plain.Moved (plain.standing.settled (· = address)) (plain.flushPage address).2 := by
  rcases flushed_or_stopped hsound hsmall address with hflushed | ⟨⟨error, herror⟩, -⟩
  · exact hflushed
  · exfalso
    cases hchanged : plain.changed? address with
    | none => simp [flushPage, hchanged] at herror
    | some page =>
        obtain ⟨hmem, rfl⟩ := hsound.changed?_eq_some_iff.mp hchanged
        have hpage := hsound.changed page hmem
        obtain ⟨former, hfiled, -, hsize, -⟩ := hpage.filed
        obtain ⟨owner, old, -, -, hflush⟩ := flushPage_of_changed hsound hchanged
        generalize LogRecord.update page.address old.bytes page.bytes = record at hflush
        have hlogged := moved_logged hsound hsmall owner record
        rw [← filed?_logged hsound owner record] at hfiled
        simp only [Failpoints.blocked, Bool.or_eq_false_iff] at hblocked
        obtain ⟨disk, hwrite⟩ : ∃ disk, plain.catalog.write plain.armed
            (plain.logged owner record).disk page = .ok disk :=
          Catalog.write_of_unarmed hlogged.small hblocked.1 hblocked.2 hpage.sound hfiled hsize
        simp [hwrite, hflush] at herror

/-- A restore undoes the changes of its page, and does not fail. -/
theorem moved_restorePage (hsound : plain.Sound) (hsmall : plain.catalog.Small plain.disk)
    (address : PageAddress) :
    (plain.restorePage address).1 = .ok () ∧
      plain.Moved (plain.standing.reverted (· = address)) (plain.restorePage address).2 := by
  cases hchanged : plain.changed? address with
  | none =>
      simp only [restorePage, hchanged, true_and]
      refine ⟨hsound, hsmall, standing_eq_reverted rfl ?_, rfl, rfl⟩
      intro other
      split
      · rename_i hother
        rw [hother, hchanged]
      · rfl
  | some page =>
      obtain ⟨hmem, rfl⟩ := hsound.changed?_eq_some_iff.mp hchanged
      obtain ⟨former, hfiled, -⟩ := (hsound.changed page hmem).filed
      simp only [restorePage, hchanged, Catalog.read_of_filed? hsmall hfiled, true_and]
      exact ⟨sound_drop hsound _, hsmall, standing_eq_reverted rfl (changed?_drop plain _), rfl,
        rfl⟩

/-! ## All pages of a transaction -/

theorem settled_none (standing : Standing) :
    standing.settled (· ∈ ([] : List PageAddress)) = standing := by
  simp [Standing.settled]

theorem reverted_none (standing : Standing) :
    standing.reverted (· ∈ ([] : List PageAddress)) = standing := by
  simp [Standing.reverted]

theorem settled_settled (standing : Standing) (on later : PageAddress → Bool) :
    (standing.settled on).settled later = standing.settled fun page => on page || later page := by
  simp only [Standing.settled, Standing.mk.injEq, true_and]
  constructor
  · funext place
    by_cases hon : on place.page = true
    · simp [hon]
    · simp [hon]
  · funext page
    by_cases hon : on page = true
    · simp [hon]
    · simp [hon]

theorem reverted_reverted (standing : Standing) (on later : PageAddress → Bool) :
    (standing.reverted on).reverted later =
      standing.reverted fun page => on page || later page := by
  simp only [Standing.reverted, Standing.mk.injEq, true_and]
  constructor
  · funext place
    by_cases hon : on place.page = true
    · simp [hon]
    · simp [hon]
  · funext page
    by_cases hon : on page = true
    · simp [hon]
    · simp [hon]

theorem Moved.trans {standing last' : Standing} (hfirst : plain.Moved standing after)
    (hsecond : after.Moved last' last) : plain.Moved last' last :=
  ⟨hsecond.sound, hsecond.small, hsecond.standing, hsecond.locks.trans hfirst.locks,
    hsecond.armed.trans hfirst.armed⟩

/-- What work on one page moves, work on several pages moves for all of them. -/
theorem moved_each {work : PlainStore → PageAddress → Outcome Unit}
    {move : Standing → (PageAddress → Bool) → Standing} {armed : Failpoints}
    (hnone : ∀ standing, move standing (· ∈ ([] : List PageAddress)) = standing)
    (hmove : ∀ standing on later,
      move (move standing on) later = move standing fun page => on page || later page)
    (hwork : ∀ (store : PlainStore) (address : PageAddress), store.Sound →
      store.catalog.Small store.disk → store.armed = armed →
        (work store address).1 = .ok () ∧
          store.Moved (move store.standing (· = address)) (work store address).2)
    (addresses : List PageAddress) (hsound : plain.Sound)
    (hsmall : plain.catalog.Small plain.disk) (harmed : plain.armed = armed) :
    (each work addresses plain).1 = .ok () ∧
      plain.Moved (move plain.standing (· ∈ addresses)) (each work addresses plain).2 := by
  induction addresses generalizing plain with
  | nil =>
      rw [hnone]
      exact ⟨rfl, .refl hsound hsmall⟩
  | cons address addresses ih =>
      obtain ⟨hok, hmoved⟩ := hwork plain address hsound hsmall harmed
      unfold each
      revert hok hmoved
      rcases work plain address with ⟨result, after⟩
      rintro rfl hmoved
      -- the rest starts where the first page left the standing
      obtain ⟨hrest, hlast⟩ := ih hmoved.sound hmoved.small (hmoved.armed.trans harmed)
      refine ⟨hrest, hmoved.trans ?_⟩
      rw [hmoved.standing, hmove] at hlast
      have hon : (fun page => decide (page ∈ address :: addresses))
          = fun page => decide (page = address) || decide (page ∈ addresses) := by
        funext page
        simp
      rw [hon]
      exact hlast

theorem moved_each_flushPage (addresses : List PageAddress) (hsound : plain.Sound)
    (hsmall : plain.catalog.Small plain.disk) (hblocked : plain.armed.blocked = false) :
    (each flushPage addresses plain).1 = .ok () ∧
      plain.Moved (plain.standing.settled (· ∈ addresses)) (each flushPage addresses plain).2 := by
  apply moved_each settled_none settled_settled _ addresses hsound hsmall rfl
  intro store address hstore hfiles harmed
  exact moved_flushPage hstore hfiles (by rw [harmed, hblocked]) address

theorem moved_each_restorePage (addresses : List PageAddress) (hsound : plain.Sound)
    (hsmall : plain.catalog.Small plain.disk) :
    (each restorePage addresses plain).1 = .ok () ∧
      plain.Moved (plain.standing.reverted (· ∈ addresses))
        (each restorePage addresses plain).2 := by
  apply moved_each reverted_none reverted_reverted _ addresses hsound hsmall rfl
  intro store address hstore hfiles _
  exact moved_restorePage hstore hfiles address

/-- The pages that end with a transaction are those that it changed. -/
theorem mem_dirtiedBy (hsound : plain.Sound) (tid : TransactionId) :
    (fun page => decide (page ∈ plain.dirtiedBy tid)) = plain.standing.owns tid := by
  funext address
  have hmem : address ∈ plain.dirtiedBy tid ↔ plain.owner? address = some tid := by
    simp only [dirtiedBy, (perm_inOrder _ _).mem_iff, List.mem_map, List.mem_filter,
      decide_eq_true_eq]
    constructor
    · rintro ⟨page, ⟨hpage, howner⟩, haddress⟩
      have hchanged := hsound.changed?_eq_some_iff.mpr ⟨hpage, haddress⟩
      simp only [owner?, hchanged, Option.bind_some, howner]
    · intro howner
      obtain ⟨page, hchanged, hpage⟩ := Option.bind_eq_some_iff.mp howner
      obtain ⟨hmem, haddress⟩ := hsound.changed?_eq_some_iff.mp hchanged
      exact ⟨page, ⟨hmem, hpage⟩, haddress⟩
  simp only [hmem]
  rfl

theorem mem_order (hsound : plain.Sound) {order : List PageAddress}
    (horder : order.Perm (plain.dirtiedBy tid)) :
    (fun page => decide (page ∈ order)) = plain.standing.owns tid := by
  rw [← mem_dirtiedBy hsound tid]
  funext page
  simp only [horder.mem_iff]

/-- All changes of a transaction go to the files, or its first flush fails and none does. -/
theorem settled_or_stopped (hsound : plain.Sound) (hsmall : plain.catalog.Small plain.disk)
    {order : List PageAddress} (horder : order.Perm (plain.dirtiedBy tid)) :
    ((each flushPage order plain).1 = .ok () ∧
      plain.Moved (plain.standing.settled (plain.standing.owns tid))
        (each flushPage order plain).2) ∨
    ((∃ error, (each flushPage order plain).1 = .error error) ∧
      plain.Moved plain.standing (each flushPage order plain).2) := by
  have hon := mem_order hsound horder
  cases hblocked : plain.armed.blocked with
  | false =>
      rw [← hon]
      exact Or.inl (moved_each_flushPage _ hsound hsmall hblocked)
  -- With a failpoint armed the first flush fails, so it matters only whether there is one.
  | true =>
      cases order with
      | nil =>
          refine Or.inl ⟨rfl, ?_⟩
          rw [← hon, settled_none]
          exact .refl hsound hsmall
      | cons address rest =>
          have howner : plain.owner? address = some tid := by
            apply of_decide_eq_true
            show plain.standing.owns tid address = true
            rw [← hon]
            simp
          obtain ⟨page, hchanged, -⟩ := Option.bind_eq_some_iff.mp howner
          obtain ⟨error, who, record, hflush⟩ := flushPage_of_blocked hsound hblocked hchanged
          simp only [each, hflush]
          exact Or.inr ⟨⟨error, rfl⟩, moved_logged hsound hsmall who record⟩

/-! ## Ends -/

/-- The store after a transaction has ended: it has no changed page and no lock any more. -/
structure Ended (plain : PlainStore) (tid : TransactionId) (standing : Standing)
    (after : PlainStore) : Prop where
  guarded : after.Guarded
  standing : after.standing = standing
  holds : ∀ address who, who ≠ tid → plain.locks.holds address who = true →
    after.locks.holds address who = true

theorem ended_of_moved (hguarded : plain.Guarded) (tid : TransactionId) {standing : Standing}
    (hmoved : plain.Moved standing after)
    (howner : ∀ address who, standing.owner address = some who →
      who ≠ tid ∧ plain.owner? address = some who) (record : LogRecord) :
    plain.Ended tid standing
      ((after.withLocks (after.locks.releaseAll tid)).logged tid record) := by
  have hreleased := sound_withLocks hmoved.sound (after.locks.releaseAll tid)
  have hlogged := moved_logged hreleased hmoved.small tid record
  -- The locks of the others stay.
  have hmode : ∀ address who, who ≠ tid →
      (after.locks.releaseAll tid).mode? address who = plain.locks.mode? address who := by
    intro address who hwho
    rw [hmoved.locks, LockTable.mode?_releaseAll hguarded.locks, if_neg hwho]
  have hstanding : ((after.withLocks (after.locks.releaseAll tid)).logged tid record).standing
      = standing := hlogged.standing.trans hmoved.standing
  refine ⟨⟨?_, ?_⟩, hstanding, ?_⟩
  · show (after.locks.releaseAll tid).Sound
    rw [hmoved.locks]
    exact LockTable.sound_releaseAll hguarded.locks tid
  · intro address who howned
    have hstill : standing.owner address = some who := by
      rw [← hstanding]
      exact howned
    obtain ⟨hwho, hbefore⟩ := howner address who hstill
    show (after.locks.releaseAll tid).mode? address who = _
    rw [hmode address who hwho]
    exact hguarded.owned address who hbefore
  · intro address who hwho hheld
    show (after.locks.releaseAll tid).holds address who = true
    rw [LockTable.holds, hmode address who hwho]
    exact hheld

/-- Who owns a page after the pages of a transaction became clean. -/
theorem owner_of_cleaned {tid who : TransactionId} {address : PageAddress}
    (howner : (if plain.standing.owns tid address then none else plain.owner? address)
      = some who) : who ≠ tid ∧ plain.owner? address = some who := by
  split at howner
  · exact absurd howner (by simp)
  · rename_i howns
    refine ⟨?_, howner⟩
    rintro rfl
    have hmine : plain.standing.owner address = some who := howner
    simp [Standing.owns, hmine] at howns

/-- An abort undoes the changes of its transaction, and does not fail. -/
theorem ended_finish_abort (hguarded : plain.Guarded) (hsound : plain.Sound)
    (hsmall : plain.catalog.Small plain.disk) (tid : TransactionId) :
    (plain.finish tid false).1 = .ok () ∧
      plain.Ended tid (plain.standing.reverted (plain.standing.owns tid))
        (plain.finish tid false).2 := by
  obtain ⟨hok, hmoved⟩ := moved_each_restorePage (plain.dirtiedBy tid) hsound hsmall
  rw [mem_dirtiedBy hsound tid] at hmoved
  simp only [finish, complete, Bool.false_eq_true, if_false]
  revert hok hmoved
  rcases each restorePage (plain.dirtiedBy tid) plain with ⟨result, after⟩
  rintro rfl hmoved
  exact ⟨rfl, ended_of_moved hguarded tid hmoved (fun _ _ => owner_of_cleaned) _⟩

theorem guarded_of_moved (hguarded : plain.Guarded)
    (hmoved : plain.Moved plain.standing after) : after.Guarded := by
  refine ⟨by rw [hmoved.locks]; exact hguarded.locks, ?_⟩
  intro address who howned
  have howner : plain.owner? address = some who := by
    have hsame := congrArg (fun standing => standing.owner address) hmoved.standing
    exact hsame.symm.trans howned
  rw [hmoved.locks]
  exact hguarded.owned address who howner

theorem Ended.conducts {event : Event} {standing : Standing}
    (hended : plain.Ended tid standing after) (hhappens : event.Happens plain.standing standing)
    (hends : ∀ who, Event.ends who event = decide (tid = who)) : plain.Conducts event after := by
  refine ⟨hended.guarded, ?_, ?_⟩
  · rw [hended.standing]
    exact hhappens
  · intro address who hwho
    rw [hends, decide_eq_false_iff_not] at hwho
    exact hended.holds address who (Ne.symm hwho)

/-- A commit takes the changes of its transaction to the files, in whatever order its pages come;
one that fails has done nothing but to drop the transaction. -/
theorem conducts_endIn_commit (hguarded : plain.Guarded) (hsound : plain.Sound)
    (hsmall : plain.catalog.Small plain.disk) {order : List PageAddress}
    (horder : order.Perm (plain.dirtiedBy tid)) :
    ((plain.endIn tid order true).1 = .ok () ∧
      plain.Conducts (.committed tid) (plain.endIn tid order true).2) ∨
    ((∃ error, (plain.endIn tid order true).1 = .error error) ∧
      plain.Conducts (.dropped tid) (plain.endIn tid order true).2) := by
  have hflushed := settled_or_stopped hsound hsmall horder
  simp only [endIn, if_true]
  revert hflushed
  rcases each flushPage order plain with ⟨result, after⟩
  rintro (⟨rfl, hmoved⟩ | ⟨⟨error, rfl⟩, hmoved⟩)
  · have hended := ended_of_moved hguarded tid hmoved (fun _ _ => owner_of_cleaned) .commit
    exact Or.inl ⟨rfl, hended.conducts (.committed _ _) fun _ => rfl⟩
  -- The abort starts from a store in which no row has moved.
  · have hguarded' := guarded_of_moved hguarded hmoved
    obtain ⟨-, habort⟩ := ended_finish_abort hguarded' hmoved.sound hmoved.small tid
    refine Or.inr ⟨⟨error, rfl⟩, ?_⟩
    have hended : plain.Ended tid (plain.standing.reverted (plain.standing.owns tid))
        (after.finish tid false).2 := by
      rw [hmoved.standing] at habort
      refine ⟨habort.guarded, habort.standing, ?_⟩
      rw [← hmoved.locks]
      exact habort.holds
    exact hended.conducts (.dropped _ _) fun _ => rfl

/-- An abort undoes the changes of its transaction, in whatever order its pages come. -/
theorem conducts_endIn_abort (hguarded : plain.Guarded) (hsound : plain.Sound)
    (hsmall : plain.catalog.Small plain.disk) {order : List PageAddress}
    (horder : order.Perm (plain.dirtiedBy tid)) :
    (plain.endIn tid order false).1 = .ok () ∧
      plain.Conducts (.dropped tid) (plain.endIn tid order false).2 := by
  obtain ⟨hok, hmoved⟩ := moved_each_restorePage order hsound hsmall
  rw [mem_order hsound horder] at hmoved
  simp only [endIn, Bool.false_eq_true, if_false]
  revert hok hmoved
  rcases each restorePage order plain with ⟨result, after⟩
  rintro rfl hmoved
  have hended := ended_of_moved hguarded tid hmoved (fun _ _ => owner_of_cleaned) .abort
  exact ⟨rfl, hended.conducts (.dropped _ _) fun _ => rfl⟩

theorem conducts_commit (hguarded : plain.Guarded) (hsound : plain.Sound)
    (hsmall : plain.catalog.Small plain.disk) (tid : TransactionId) :
    ((plain.endWith tid true).1 = .ok () ∧
      plain.Conducts (.committed tid) (plain.endWith tid true).2) ∨
    ((∃ error, (plain.endWith tid true).1 = .error error) ∧
      plain.Conducts (.dropped tid) (plain.endWith tid true).2) := by
  rw [endWith_eq_endIn]
  exact conducts_endIn_commit hguarded hsound hsmall (.refl _)

theorem conducts_abandon (hguarded : plain.Guarded) (hsound : plain.Sound)
    (hsmall : plain.catalog.Small plain.disk) (tid : TransactionId) :
    plain.Conducts (.dropped tid) (plain.finish tid false).2 :=
  (ended_finish_abort hguarded hsound hsmall tid).2.conducts (.dropped _ _) fun _ => rfl

theorem conducts_abort (hguarded : plain.Guarded) (hsound : plain.Sound)
    (hsmall : plain.catalog.Small plain.disk) (tid : TransactionId) :
    plain.Conducts (.dropped tid) (plain.endWith tid false).2 := by
  rw [endWith_eq_endIn]
  exact (conducts_endIn_abort hguarded hsound hsmall (.refl _)).2

end PlainStore

end HeapStore
