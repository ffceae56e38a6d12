import HeapStore.Proofs.Invariant
import HeapStore.Proofs.Recovery

/-!
# Stores before their first transaction

A store that was opened goes on behind what is in the file of its log: it knows where the file ends
and has no chain yet, and the largest transaction that it recovered is the largest one of all
records that can be read there.  Tables that are then registered are in other files, or in the one
of the log, but no content of a file changes.
-/

namespace HeapStore

/-! ## Files that are opened -/

namespace Disk

variable {disk made after : Disk} {origin location : Location}

/-- No file has another content. -/
def SameContents (disk after : Disk) : Prop :=
  ∀ location, after.content location = disk.content location

theorem SameContents.refl (disk : Disk) : disk.SameContents disk :=
  fun _ => rfl

theorem SameContents.trans (hfirst : disk.SameContents made) (hsecond : made.SameContents after) :
    disk.SameContents after :=
  fun location => (hsecond location).trans (hfirst location)

/-- What was there is as it was, and what is new is a directory or an empty file. -/
def Grown (disk after : Disk) : Prop :=
  ∀ location, after.entry? location = disk.entry? location ∨
    disk.entry? location = none ∧
      (after.entry? location = some .directory ∨ after.entry? location = some (.file .empty))

theorem Grown.refl (disk : Disk) : disk.Grown disk :=
  fun _ => .inl rfl

theorem Grown.trans (hfirst : disk.Grown made) (hsecond : made.Grown after) :
    disk.Grown after := by
  intro location
  rcases hsecond location with hsame | ⟨hmissing, hnew⟩
  · rw [hsame]
    exact hfirst location
  · rcases hfirst location with hsame | ⟨-, hmade⟩
    · exact .inr ⟨hsame ▸ hmissing, hnew⟩
    · -- what was made in the first step is not missing in the second
      rw [hmissing] at hmade
      rcases hmade with hmade | hmade <;> exact absurd hmade (by simp)

theorem Grown.file (hgrown : disk.Grown after) {content : Content}
    (hfile : disk.entry? location = some (.file content)) :
    after.entry? location = some (.file content) := by
  rcases hgrown location with hsame | ⟨hmissing, -⟩
  · rw [hsame, hfile]
  · exact absurd (hmissing.symm.trans hfile) (by simp)

theorem Grown.sameContents (hgrown : disk.Grown after) : disk.SameContents after := by
  intro location
  rcases hgrown location with hsame | ⟨hmissing, hnew | hnew⟩
  · simp only [Disk.content, hsame]
  · simp only [Disk.content, hmissing, hnew]
  · simp only [Disk.content, hmissing, hnew]

theorem grown_put (hlocation : location ≠ []) (hmissing : disk.entry? location = none)
    {entry : Entry} (hentry : entry = .directory ∨ entry = .file .empty) :
    disk.Grown (disk.put location entry) := by
  intro other
  rw [entry_put disk hlocation]
  by_cases hother : other = location
  · rw [if_pos hother, hother]
    exact .inr ⟨hmissing, hentry.imp (congrArg some) (congrArg some)⟩
  · rw [if_neg hother]
    exact .inl rfl

/-- A directory is made where nothing was. -/
theorem grown_makeDirectory {names : List String}
    (hmake : disk.makeDirectory origin names = .ok made) : disk.Grown made := by
  simp only [makeDirectory, bind, Except.bind, pure, Except.pure, throw, throwThe,
    MonadExceptOf.throw] at hmake
  split at hmake
  · exact absurd hmake (by simp)
  · split at hmake
    · exact absurd hmake (by simp)
    · split at hmake
      · exact absurd hmake (by simp)
      · split at hmake
        · exact absurd hmake (by simp)
        · split at hmake
          · exact absurd hmake (by simp)
          · split at hmake
            · exact absurd hmake (by simp)
            · rename_i hmissing
              obtain rfl := Except.ok.inj hmake
              exact grown_put (by simp) hmissing (.inl rfl)

theorem grown_makeDirectories (disk : Disk) (origin : Location) (names : List String) :
    disk.Grown (disk.makeDirectories origin names).2 := by
  induction names with
  | nil => exact .refl disk
  | cons name above ih =>
      simp only [makeDirectories]
      split
      · rename_i made hmake
        exact grown_makeDirectory hmake
      · revert ih
        rcases disk.makeDirectories origin above with ⟨result, made⟩
        intro hmade
        cases result with
        | error error => exact hmade
        | ok _ =>
            simp only
            split
            · rename_i all hmake
              exact hmade.trans (grown_makeDirectory hmake)
            · exact hmade
      · exact .refl disk

theorem grown_makeAbove (disk : Disk) (origin : Location) (names : List String) :
    disk.Grown (disk.makeAbove origin names).2 := by
  unfold makeAbove
  split
  · exact .refl disk
  · have hmade := grown_makeDirectories disk origin names.dropLast.reverse
    revert hmade
    rcases disk.makeDirectories origin names.dropLast.reverse with ⟨result, made⟩
    intro hmade
    cases result with
    | error error => exact hmade
    | ok _ => exact hmade
  · exact .refl disk

theorem grown_makeParent (disk : Disk) (path : Path) : disk.Grown (disk.makeParent path).2 := by
  unfold makeParent
  split
  · exact .refl disk
  · unfold makePath
    split
    · exact .refl disk
    · split
      · exact grown_makeAbove disk _ _
      · exact grown_makeDirectories disk _ _

/-- A file that is opened is there. -/
theorem grown_openFile {path : Path} (hopen : disk.openFile path = .ok (location, made)) :
    disk.Grown made ∧ ∃ content, made.entry? location = some (.file content) := by
  have hlocation := location_ne_nil_of_openFile hopen
  obtain ⟨above, name, -, -, -, -, -, -, hmade⟩ := openFile_cases hopen
  rcases hmade with ⟨content, hfile, rfl⟩ | ⟨hmissing, rfl⟩
  · exact ⟨.refl made, content, hfile⟩
  · exact ⟨grown_put hlocation hmissing (.inr rfl), .empty, entry_write_same disk hlocation .empty⟩

end Disk

theorem Table.grown_openFile (disk : Disk) (path : String) (schema : Schema) (pageSize : Nat) :
    disk.Grown (Table.openFile disk path schema pageSize).2 := by
  unfold Table.openFile
  have hparent := disk.grown_makeParent (Path.ofString path)
  revert hparent
  rcases disk.makeParent (Path.ofString path) with ⟨result, made⟩
  intro hparent
  cases result with
  | error error => exact hparent
  | ok _ =>
      simp only
      split
      · exact hparent
      · rename_i location opened hopen
        exact hparent.trans (Disk.grown_openFile hopen).1

theorem Table.file_of_openFile {disk made : Disk} {path : String} {schema : Schema}
    {pageSize : Nat} {table : Table}
    (hopen : Table.openFile disk path schema pageSize = (.ok table, made)) :
    ∃ content, made.entry? table.location = some (.file content) := by
  unfold Table.openFile at hopen
  split at hopen
  · exact absurd (Prod.mk.inj hopen).1 (by simp)
  · split at hopen
    · exact absurd (Prod.mk.inj hopen).1 (by simp)
    · rename_i location opened hfile
      obtain ⟨htable, rfl⟩ := Prod.mk.inj hopen
      obtain rfl := Except.ok.inj htable
      exact (Disk.grown_openFile hfile).2

/-! ## Logs that go on -/

section

variable {rest kept : Content} {tail : Bytes} {entry : LogEntry} {lsn length : Nat}

/-- More bytes behind a record do not matter to it. -/
theorem readFrame_of_longer (hbytes : rest.toBytes = kept.toBytes ++ tail)
    (hread : readFrame lsn kept = .ok (entry, length)) :
    readFrame lsn rest = .ok (entry, length) := by
  have hsize : rest.size = kept.size + tail.length := by
    rw [Content.size_eq_length, hbytes, List.length_append, Content.size_eq_length]
  -- what lies within the first bytes is the same in both
  have hslice : ∀ offset count, offset + count ≤ kept.size →
      rest.slice offset count = kept.slice offset count := by
    intro offset count hin
    rw [Content.size_eq_length] at hin
    rw [Content.slice_eq, Content.slice_eq, hbytes, Bytes.slice, Bytes.slice,
      List.drop_append_of_le_length (by omega),
      List.take_append_of_le_length (by rw [List.length_drop]; omega)]
  simp only [readFrame] at hread ⊢
  split at hread
  · exact absurd hread (by simp)
  · rename_i hheaded
    rw [hslice 0 logHeaderSize (by omega)]
    rw [if_neg (by omega)]
    generalize LogHeader.ofBytes (kept.slice 0 logHeaderSize) = header at hread ⊢
    split at hread
    · exact absurd hread (by simp)
    · rename_i hlong
      rw [if_neg hlong]
      split at hread
      · exact absurd hread (by simp)
      · rename_i hwhole
        have hbody : header.body rest = header.body kept :=
          hslice logHeaderSize (header.length - logHeaderSize) (by omega)
        rw [if_neg (by omega), LogHeader.matchesBody, hbody]
        exact hread

/-- A record that can be read is one that the walk goes past. -/
theorem LogHead.of_readFrame (hread : readFrame lsn rest = .ok (entry, length)) :
    LogHead.ofContent rest = .record entry.transaction length := by
  simp only [readFrame] at hread
  simp only [ofContent]
  split at hread
  · exact absurd hread (by simp)
  · rename_i hheaded
    have hsome : ¬ rest.size = 0 := by
      simp only [logHeaderSize] at hheaded
      omega
    rw [if_neg hsome, if_neg hheaded]
    generalize LogHeader.ofBytes (rest.slice 0 logHeaderSize) = header at hread ⊢
    split at hread
    · exact absurd hread (by simp)
    · rename_i hlong
      split at hread
      · exact absurd hread (by simp)
      · rename_i hwhole
        split at hread
        · exact absurd hread (by simp)
        · rename_i hmatches
          split at hread
          · exact absurd hread (by simp)
          · obtain ⟨rfl, rfl⟩ := Prod.mk.inj (Except.ok.inj hread)
            have hmatched : header.matchesBody rest = true := by simpa using hmatches
            simp [hlong, hwhole, hmatched]

end

namespace Log

variable {position stop later : Nat} {largest recovered : Option TransactionId}
  {rest kept behind : Content} {tail : Bytes} {entries more : List LogEntry}

theorem toBytes_drop_longer (hbytes : rest.toBytes = kept.toBytes ++ tail) {length : Nat}
    (hlength : length ≤ kept.size) :
    (rest.drop length).toBytes = (kept.drop length).toBytes ++ tail := by
  rw [Content.size_eq_length] at hlength
  rw [Content.toBytes_drop, Content.toBytes_drop, hbytes, List.drop_append_of_le_length hlength]

/-- Records that can be read can be read as well where more bytes follow. -/
theorem readUntil_of_longer (hbytes : rest.toBytes = kept.toBytes ++ tail)
    (hread : readUntil stop position kept = .ok entries) :
    readUntil stop position rest = .ok entries := by
  fun_induction readUntil stop position kept generalizing rest entries with
  | case1 position kept hbefore error herror => exact absurd hread (by simp)
  | case2 position kept hbefore entry length hframe ih =>
      obtain ⟨-, hlength⟩ := length_of_readFrame hframe
      rw [readUntil_of_frame hbefore (readFrame_of_longer hbytes hframe)]
      cases hothers : readUntil stop (position + length) (kept.drop length) with
      | error error => simp [hothers, Except.map] at hread
      | ok others =>
          rw [ih (toBytes_drop_longer hbytes hlength) hothers]
          rwa [hothers] at hread
  | case3 position kept hend =>
      rw [readUntil_of_stop (Nat.le_of_not_lt hend)]
      exact hread

/-- Records behind others are read after them. -/
theorem readUntil_append (hbytes : rest.toBytes = kept.toBytes ++ behind.toBytes)
    (hstop : position + kept.size = stop) (hlater : stop ≤ later)
    (hread : readUntil stop position kept = .ok entries)
    (hmore : readUntil later stop behind = .ok more) :
    readUntil later position rest = .ok (entries ++ more) := by
  fun_induction readUntil stop position kept generalizing rest entries with
  | case1 position kept hbefore error herror => exact absurd hread (by simp)
  | case2 position kept hbefore entry length hframe ih =>
      obtain ⟨-, hlength⟩ := length_of_readFrame hframe
      rw [readUntil_of_frame (Nat.lt_of_lt_of_le hbefore hlater)
        (readFrame_of_longer hbytes hframe)]
      cases hothers : readUntil stop (position + length) (kept.drop length) with
      | error error => simp [hothers, Except.map] at hread
      | ok others =>
          have hsize : position + length + (kept.drop length).size = stop := by
            rw [Content.size_drop, Nat.add_assoc, Nat.add_sub_cancel' hlength, hstop]
          rw [ih (toBytes_drop_longer hbytes hlength) hsize hothers]
          rw [hothers] at hread
          obtain rfl := Except.ok.inj hread
          rfl
  | case3 position kept hend =>
      -- nothing is left in front
      have hsize : kept.size = 0 := by
        have hle : position + kept.size ≤ position := hstop ▸ Nat.le_of_not_lt hend
        exact Nat.le_zero.mp (Nat.le_of_add_le_add_left hle)
      rw [hsize, Nat.add_zero] at hstop
      subst hstop
      obtain rfl := Except.ok.inj hread
      have hnone : kept.toBytes = [] := by
        rw [← List.length_eq_zero_iff, ← Content.size_eq_length, hsize]
      rw [hnone, List.nil_append] at hbytes
      exact readUntil_of_longer (by rw [hbytes, List.append_nil]) hmore

/-- The transaction is not larger than the largest one. -/
def Covers (largest : Option TransactionId) (tid : TransactionId) : Prop :=
  ∃ most, largest = some most ∧ tid ≤ most

theorem covers_maxTransaction (largest : Option TransactionId) (tid : TransactionId) :
    Covers (maxTransaction largest tid) tid := by
  cases largest with
  | none => exact ⟨tid, rfl, UInt64.le_refl tid⟩
  | some most =>
      simp only [maxTransaction]
      split
      · exact ⟨tid, rfl, UInt64.le_refl tid⟩
      · rename_i hle
        exact ⟨most, rfl, UInt64.not_lt.mp hle⟩

theorem Covers.maxTransaction {tid : TransactionId} (hcovers : Covers largest tid)
    (other : TransactionId) : Covers (maxTransaction largest other) tid := by
  obtain ⟨most, rfl, hle⟩ := hcovers
  simp only [Log.maxTransaction]
  split
  · rename_i hlt
    exact ⟨other, rfl, UInt64.le_trans hle (UInt64.le_of_lt hlt)⟩
  · exact ⟨most, rfl, hle⟩

/-- The walk ends in the file, not before where it starts, and forgets no transaction. -/
theorem of_walk (hwalk : walk position largest rest = .ok (stop, recovered)) :
    position ≤ stop ∧ stop ≤ position + rest.size ∧
      ∀ tid, Covers largest tid → Covers recovered tid := by
  fun_induction walk position largest rest with
  | case1 position largest rest hhead =>
      obtain ⟨rfl, rfl⟩ := Prod.mk.inj (Except.ok.inj hwalk)
      exact ⟨Nat.le_refl _, Nat.le_add_right _ _, fun _ hcovers => hcovers⟩
  | case2 position largest rest hhead =>
      obtain ⟨rfl, rfl⟩ := Prod.mk.inj (Except.ok.inj hwalk)
      exact ⟨Nat.le_refl _, Nat.le_add_right _ _, fun _ hcovers => hcovers⟩
  | case3 position largest rest hhead => exact absurd hwalk (by simp)
  | case4 position largest rest transaction length hhead ih =>
      obtain ⟨-, hlength⟩ := LogHead.length_of_record hhead
      obtain ⟨hstart, hstop, hcovers⟩ := ih hwalk
      rw [Content.size_drop] at hstop
      refine ⟨by omega, by omega, ?_⟩
      exact fun tid htid => hcovers tid (htid.maxTransaction transaction)

/-- What the walk found covers the transactions of all records that can be read. -/
theorem covers_of_readUntil (hbytes : rest.toBytes = kept.toBytes ++ tail)
    (hwalk : walk position largest rest = .ok (stop, recovered))
    (hread : readUntil stop position kept = .ok entries) :
    ∀ entry ∈ entries, Covers recovered entry.transaction := by
  fun_induction readUntil stop position kept generalizing rest largest entries with
  | case1 position kept hbefore error herror => exact absurd hread (by simp)
  | case2 position kept hbefore entry length hframe ih =>
      obtain ⟨-, hlength⟩ := length_of_readFrame hframe
      rw [walk_of_record (LogHead.of_readFrame (readFrame_of_longer hbytes hframe))] at hwalk
      cases hothers : readUntil stop (position + length) (kept.drop length) with
      | error error => simp [hothers, Except.map] at hread
      | ok others =>
          rw [hothers] at hread
          obtain rfl := Except.ok.inj hread
          intro other hother
          rcases List.mem_cons.mp hother with rfl | hother
          · exact (of_walk hwalk).2.2 _ (covers_maxTransaction _ _)
          · exact ih (toBytes_drop_longer hbytes hlength) hwalk hothers other hother
  | case3 position kept hend =>
      obtain rfl := Except.ok.inj hread
      exact fun entry hentry => absurd hentry List.not_mem_nil

/-- The log goes on behind this content, with no chain yet, and no transaction in it is larger than
the largest one that was recovered. -/
structure Begins (log : Log) (content : Content) : Prop where
  next : log.next = content.size
  last : log.last = []
  covers : ∀ entries, log.records content = .ok entries →
    ∀ entry ∈ entries, Covers log.recovered entry.transaction

theorem begins_of_openContent {location : Location} {content : Content} {log : Log}
    (hopen : openContent location content = .ok (log, kept)) : log.Begins kept := by
  obtain ⟨stop, recovered, hwalk, rfl, rfl⟩ := openContent_eq_ok_iff.mp hopen
  obtain ⟨-, hstop, -⟩ := of_walk hwalk
  rw [Nat.zero_add, Content.size_eq_length] at hstop
  refine ⟨?_, rfl, ?_⟩
  · rw [Content.size_eq_length, Content.toBytes_take, List.length_take, Nat.min_eq_left hstop]
  · intro entries hread
    have hbytes : content.toBytes = (content.take stop).toBytes ++ content.toBytes.drop stop := by
      rw [Content.toBytes_take, List.take_append_drop]
    exact covers_of_readUntil hbytes hwalk hread

/-- Nothing was written behind the content yet. -/
theorem Begins.extends {log : Log} {content : Content} (hbegins : log.Begins content) :
    log.Extends content.toBytes content [] where
  bytes := by simp
  stacked := trivial
  next := by rw [hbegins.next, Content.size_eq_length]; rfl
  short := by simp
  chained := by simp
  last := by simp [hbegins.last]

/-- The records of a log are those that could be read before, and those that were written since. -/
theorem Extends.records {log before : Log} {content : Content}
    (hextends : log.Extends kept.toBytes content entries) (hfits : ∀ entry ∈ entries, entry.Fits)
    (hnext : before.next = kept.size) {old : List LogEntry}
    (hold : before.records kept = .ok old) : log.records content = .ok (old ++ entries) := by
  have hbehind := hextends.readUntil hfits
  have hlater := hextends.stacked.le_stopOf
  rw [← hextends.next] at hlater
  rw [← Content.size_eq_length] at hbehind hlater
  simp only [Log.records, hnext] at hold ⊢
  apply readUntil_append _ (Nat.zero_add _) hlater hold hbehind
  rw [Content.toBytes_drop, hextends.bytes, Content.size_eq_length, List.drop_left]

end Log

namespace Store

open HeapStore.Action

/-! ## Stores that were opened -/

variable {store : Store}

/-- A store in whose log nothing was written yet, with pages that have room in a record. -/
structure Begun (store : Store) : Prop where
  location : store.log.location ≠ []
  log : store.log.Begins store.logContent
  size : store.catalog.pageSize ≤ maxPageSize
  first : store.nextTransaction = match store.log.recovered with
    | none => 1
    | some largest => largest + 1

theorem begun_of_openAt {disk made : Disk} {armed : Failpoints} {logPath : String}
    {settings : Settings} (hopen : openAt disk armed logPath settings = (.ok store, made)) :
    store.Begun := by
  obtain ⟨log, hlog, -, hsize, rfl⟩ := of_openAt hopen
  obtain ⟨file, kept, hfile, hcontent, rfl⟩ := Log.openFile_eq_ok_iff.mp hlog
  have hlocation := Disk.location_ne_nil_of_openFile hfile
  refine ⟨hlocation, ?_, hsize, rfl⟩
  rw [logContent, Disk.content_write_same file hlocation]
  exact Log.begins_of_openContent hcontent

/-- No log record was written, no transaction began, and no file has another content. -/
structure Idle (store after : Store) : Prop where
  log : after.log = store.log
  files : store.disk.SameContents after.disk
  pageSize : after.catalog.pageSize = store.catalog.pageSize
  next : after.nextTransaction = store.nextTransaction

theorem Idle.refl (store : Store) : store.Idle store :=
  ⟨rfl, .refl _, rfl, rfl⟩

theorem Idle.trans {mid after : Store} (hfirst : store.Idle mid) (hsecond : mid.Idle after) :
    store.Idle after :=
  ⟨hsecond.log.trans hfirst.log, hfirst.files.trans hsecond.files,
    hsecond.pageSize.trans hfirst.pageSize, hsecond.next.trans hfirst.next⟩

theorem grown_openTable (path name : String) (schema : Schema) (primaryKey : Option String)
    (pageSize : Nat) (store : Store) :
    store.disk.Grown ((openTable path name schema primaryKey pageSize).perform store).2.disk := by
  have hfiles := Table.grown_openFile store.disk path schema pageSize
  rw [perform_openTable]
  revert hfiles
  rcases Table.openFile store.disk path schema pageSize with ⟨opened, disk⟩
  intro hfiles
  cases opened with
  | error error => exact hfiles
  | ok table =>
      simp only
      split
      · exact hfiles
      · exact hfiles

/-- Tables that are registered make directories and empty files, and nothing else. -/
theorem grown_of_registers (store : Store) {operation : Operation}
    (hregisters : operation.registers = true) :
    store.disk.Grown (store.step operation).2.disk :=
  related_of_registers (fun before after => before.disk.Grown after.disk)
    (fun store => .refl store.disk) .trans grown_openTable (fun store => .refl store.disk) store
    hregisters

theorem idle_openTable (path name : String) (schema : Schema) (primaryKey : Option String)
    (pageSize : Nat) (store : Store) :
    store.Idle ((openTable path name schema primaryKey pageSize).perform store).2 := by
  have hfiles := (Table.grown_openFile store.disk path schema pageSize).sameContents
  rw [perform_openTable]
  revert hfiles
  rcases Table.openFile store.disk path schema pageSize with ⟨opened, disk⟩
  intro hfiles
  cases opened with
  | error error => exact ⟨rfl, hfiles, rfl, rfl⟩
  | ok table =>
      simp only
      cases hadd : store.catalog.add table name primaryKey with
      | error error => exact ⟨rfl, hfiles, rfl, rfl⟩
      | ok catalog => exact ⟨rfl, hfiles, Catalog.pageSize_of_add hadd, rfl⟩

theorem idle_of_registers (store : Store) {operation : Operation}
    (hregisters : operation.registers = true) : store.Idle (store.step operation).2 :=
  related_of_registers Idle .refl .trans idle_openTable (fun _ => ⟨rfl, .refl _, rfl, rfl⟩) store
    hregisters

/-- Tables that are registered change nothing in the log. -/
theorem Opened.begun (hopened : Opened store) : store.Begun := by
  induction hopened with
  | opened hopen => exact begun_of_openAt hopen
  | registered hstore hregisters ih =>
      rename_i before operation
      have hidle := idle_of_registers before hregisters
      have hcontent : (before.step operation).2.logContent = before.logContent := by
        rw [logContent, hidle.log]
        exact hidle.files before.log.location
      refine ⟨?_, ?_, ?_, ?_⟩
      · rw [hidle.log]
        exact ih.location
      · rw [hidle.log, hcontent]
        exact ih.log
      · rw [hidle.pageSize]
        exact ih.size
      · rw [hidle.next, hidle.log]
        exact ih.first

end Store

end HeapStore
