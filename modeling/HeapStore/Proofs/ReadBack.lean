import HeapStore.Proofs.Chains

/-!
# Logs read back

A log file that opens consists of frames (`framed_of_openFile`), and if their bodies are records,
these are the records of the log (`Described`).  Whatever records are then written, of any
transactions, the log goes on at the end of the file, reads the old records and the new ones in
order, and reads each new record at the position that was given for it.  The previous position of a
new record is that of the last update of its transaction since the log was opened, if the
transaction did not end in between (`Follows`).
-/

namespace HeapStore

namespace Log

/-! ## Frames of a file -/

/-- The file consists of these frames. -/
structure Framed (content : Content) (frames : List LogFrame) : Prop where
  bytes : content.toBytes = bytesOf frames
  fits : ∀ frame ∈ frames, frame.Fits

/-- Up to where the walk ends, there are frames. -/
theorem framed_of_walk {position stop : Nat} {largest recovered : Option TransactionId}
    {rest : Content} (hwalk : walk position largest rest = .ok (stop, recovered)) :
    ∃ frames, Framed (rest.take (stop - position)) frames := by
  fun_induction walk position largest rest with
  | case1 position largest rest hhead =>
      obtain ⟨rfl, -⟩ := Prod.mk.inj (Except.ok.inj hwalk)
      exact ⟨[], by simp, by simp⟩
  | case2 position largest rest hhead =>
      obtain ⟨rfl, -⟩ := Prod.mk.inj (Except.ok.inj hwalk)
      exact ⟨[], by simp, by simp⟩
  | case3 position largest rest hhead => exact absurd hwalk (by simp)
  | case4 position largest rest transaction length hhead ih =>
      obtain ⟨frame, hfits, hlength, hbytes⟩ := LogFrame.of_head hhead
      obtain ⟨frames, hframes, hall⟩ := ih hwalk
      have hstart : position + length ≤ stop := (of_walk hwalk).1
      refine ⟨frame :: frames, ?_, List.forall_mem_cons.mpr ⟨hfits, hall⟩⟩
      have hfront : rest.toBytes.take length = frame.bytes := by
        rw [hbytes]
        exact List.take_left' (by rw [LogFrame.length_bytes, hlength])
      have hcount : stop - position = length + (stop - (position + length)) := by
        rw [← Nat.sub_sub, Nat.add_sub_cancel' (Nat.le_sub_of_add_le' hstart)]
      rw [Content.toBytes_take, Content.toBytes_drop] at hframes
      rw [Content.toBytes_take, hcount, List.take_add, hfront, hframes, bytesOf_cons]

/-- A log file that opens keeps the frames at its front and nothing else. -/
theorem framed_of_openFile {disk made : Disk} {path : String} {log : Log}
    (hopen : openFile disk path = (.ok log, made)) :
    ∃ frames, Framed (made.content log.location) frames ∧
      (made.content log.location).toBytes <+: (disk.content log.location).toBytes := by
  obtain ⟨opened, kept, hfile, hcontent, rfl⟩ := openFile_eq_ok_iff.mp hopen
  rw [Disk.content_write_same opened (Disk.location_ne_nil_of_openFile hfile)]
  obtain ⟨stop, recovered, hwalk, -, rfl⟩ := openContent_eq_ok_iff.mp hcontent
  obtain ⟨frames, hframed⟩ := framed_of_walk hwalk
  rw [Nat.sub_zero] at hframed
  refine ⟨frames, hframed, ?_⟩
  rw [Content.toBytes_take]
  exact List.take_prefix _ _

/-- The records that frames at a position hold. -/
def Described : Nat → List LogFrame → List LogEntry → Prop
  | _, [], [] => True
  | position, frame :: frames, entry :: entries =>
    entry.lsn = position ∧ entry.transaction = frame.transaction ∧
      entry.previous = frame.previous? ∧ LogRecord.decode? frame.body = some entry.record ∧
      Described (position + frame.length) frames entries
  | _, _, _ => False

/-- Frames whose bodies are records are read as these records. -/
theorem described_of_framed {content : Content} {frames : List LogFrame}
    (hframed : Framed content frames)
    (hdecode : ∀ frame ∈ frames, (LogRecord.decode? frame.body).isSome = true) (position : Nat) :
    ∃ entries, Described position frames entries ∧
      readUntil (position + content.size) position content = .ok entries := by
  induction frames generalizing content position with
  | nil =>
      have hempty : content.size = 0 := by
        rw [Content.size_eq_length, hframed.bytes]
        rfl
      rw [hempty]
      exact ⟨[], trivial, readUntil_of_stop (Nat.le_refl _) content⟩
  | cons frame frames ih =>
      obtain ⟨hbytes, hfits⟩ := hframed
      rw [bytesOf_cons] at hbytes
      have hsize := LogFrame.size_content hbytes
      have hleast := frame.logHeaderSize_le
      obtain ⟨record, hrecord⟩ := Option.isSome_iff_exists.mp (hdecode frame List.mem_cons_self)
      have hread := LogFrame.readFrame_eq (hfits frame List.mem_cons_self) hbytes hrecord position
      have hdrop : (content.drop frame.length).toBytes = bytesOf frames := by
        rw [Content.toBytes_drop, hbytes]
        exact List.drop_left' frame.length_bytes
      obtain ⟨entries, hdescribed, hrest⟩ := ih
        ⟨hdrop, fun other hother => hfits other (List.mem_cons_of_mem _ hother)⟩
        (fun other hother => hdecode other (List.mem_cons_of_mem _ hother))
        (position + frame.length)
      refine ⟨⟨position, frame.transaction, frame.previous?, record⟩ :: entries,
        ⟨rfl, rfl, rfl, hrecord, hdescribed⟩, ?_⟩
      have hstop : position + content.size
          = position + frame.length + (content.drop frame.length).size := by
        rw [Content.size_drop]
        omega
      have hbefore : position < position + content.size := by
        simp only [logHeaderSize] at hleast
        omega
      rw [readUntil_of_frame hbefore hread, hstop, hrest]
      rfl

/-! ## Chains -/

/-- The last update of a transaction among these records is at this position, and the transaction
did not end after it. -/
def Follows (tid : TransactionId) (entries : List LogEntry) (lsn : Lsn) : Prop :=
  ∃ front update back, entries = front ++ update :: back ∧
    update.lsn = lsn ∧ update.transaction = tid ∧ update.record.isUpdate = true ∧
    (∀ entry ∈ back, entry.transaction = tid → entry.record.isUpdate = false) ∧
    ∀ entry ∈ back, entry.transaction = tid → entry.record ≠ .commit ∧ entry.record ≠ .abort

section

variable {tid : TransactionId} {entries : List LogEntry} {lsn : Lsn}

theorem not_follows_nil : ¬ Follows tid [] lsn := by
  rintro ⟨front, update, back, hentries, -⟩
  exact absurd hentries (by simp)

/-- One more record counts if it is of the transaction, and only then. -/
theorem follows_concat {newest : LogEntry} :
    Follows tid (entries ++ [newest]) lsn ↔
      if tid = newest.transaction then newest.record.isUpdate = true ∧ newest.lsn = lsn
      else Follows tid entries lsn := by
  constructor
  · rintro ⟨front, update, back, hentries, hlsn, htid, hupdate, hlast, hgoes⟩
    rcases List.eq_nil_or_concat back with rfl | ⟨back, other, rfl⟩
    · obtain ⟨rfl, rfl⟩ := List.append_singleton_inj.mp hentries
      rw [if_pos htid.symm]
      exact ⟨hupdate, hlsn⟩
    · rw [List.concat_eq_append] at hentries hlast hgoes
      rw [← List.cons_append, ← List.append_assoc] at hentries
      obtain ⟨rfl, rfl⟩ := List.append_singleton_inj.mp hentries
      have hother : newest.transaction ≠ tid := by
        intro hsame
        have hplain := hlast newest (by simp) hsame
        obtain ⟨hcommit, habort⟩ := hgoes newest (by simp) hsame
        cases hrecord : newest.record with
        | update page before after => simp [hrecord, LogRecord.isUpdate] at hplain
        | commit => exact hcommit hrecord
        | abort => exact habort hrecord
      rw [if_neg (Ne.symm hother)]
      exact ⟨front, update, back, rfl, hlsn, htid, hupdate,
        fun entry hentry => hlast entry (by simp [hentry]),
        fun entry hentry => hgoes entry (by simp [hentry])⟩
  · intro hfollows
    split at hfollows
    · rename_i hsame
      exact ⟨entries, newest, [], rfl, hfollows.2, hsame.symm, hfollows.1, by simp, by simp⟩
    · rename_i hother
      obtain ⟨front, update, back, rfl, hlsn, htid, hupdate, hlast, hgoes⟩ := hfollows
      refine ⟨front, update, back ++ [newest], by simp, hlsn, htid, hupdate, ?_, ?_⟩
      · exact List.forall_mem_append.mpr
          ⟨hlast, List.forall_mem_singleton.mpr fun hsame => absurd hsame.symm hother⟩
      · exact List.forall_mem_append.mpr
          ⟨hgoes, List.forall_mem_singleton.mpr fun hsame => absurd hsame.symm hother⟩

/-- What a record does to the chain of a transaction. -/
theorem lookup_chain (last : List (TransactionId × Lsn)) (transaction : TransactionId) (lsn : Lsn)
    (record : LogRecord) (tid : TransactionId) :
    (chain last transaction lsn record).lookup tid =
      if tid = transaction then if record.isUpdate then some lsn else none
      else last.lookup tid := by
  cases record with
  | update page before after =>
      rw [chain, lookup_cons_eq, lookup_filter_ne]
      split <;> rfl
  | commit => exact lookup_filter_ne ..
  | abort => exact lookup_filter_ne ..

/-- The chain of a transaction leads to the update that its next record follows. -/
theorem lookup_chains : (chains [] entries).lookup tid = some lsn ↔ Follows tid entries lsn := by
  induction entries using List.reverseRecOn generalizing lsn with
  | nil => simp [chains, not_follows_nil]
  | append_singleton entries newest ih =>
      rw [chains_append, chains, chains, lookup_chain, follows_concat]
      split
      · simp
      · exact ih

/-- A record of some that are chained follows those before it. -/
theorem previous_iff_follows {front back : List LogEntry} {entry : LogEntry}
    (hchained : Chained [] (front ++ entry :: back)) :
    entry.previous = some lsn ↔ Follows entry.transaction front lsn := by
  obtain ⟨-, hprevious, -⟩ := chained_append.mp hchained
  rw [hprevious]
  exact lookup_chains

end

/-! ## Writing and reading -/

/-- The entries that are given are the works in their order, each with the end of the chain of its
transaction. -/
theorem writeAll_chained {log last : Log} {disk written : Disk} {entries : List LogEntry}
    {works : List (TransactionId × LogRecord)}
    (hwritten : log.writeAll disk works = (entries, last, written)) :
    entries.map LogEntry.mark = works ∧ Chained log.last entries := by
  induction works generalizing log disk entries with
  | nil =>
      obtain ⟨rfl, -⟩ := Prod.mk.inj hwritten
      exact ⟨rfl, trivial⟩
  | cons work works ih =>
      obtain ⟨transaction, record⟩ := work
      rcases hwrite : log.write disk transaction record with ⟨lsn, longer, grown⟩
      rcases hrest : longer.writeAll grown works with ⟨later, final, done⟩
      simp only [writeAll, hwrite, hrest, Prod.mk.injEq] at hwritten
      obtain ⟨rfl, rfl, rfl⟩ := hwritten
      obtain ⟨rfl, rfl, -⟩ : log.next = lsn ∧
          { log with
            next := log.next + (logHeaderSize + record.encode.length) % UInt32.size
            last := chain log.last transaction log.next record } = longer ∧ _ := by
        simpa [write, append] using hwrite
      obtain ⟨hmarks, hchained⟩ := ih hrest
      exact ⟨by rw [List.map_cons, hmarks]; rfl, rfl, hchained⟩

/-- Each record is read at its position. -/
theorem Extends.read {log : Log} {front : Bytes} {content : Content} {entries : List LogEntry}
    (hextends : log.Extends front content entries) (hroom : content.size ≤ Content.maxPosition) :
    ∀ entry ∈ entries, read content entry.lsn = .ok entry := by
  intro entry hentry
  have hfits := hextends.fits_of_size (Nat.lt_of_le_of_lt hroom (by decide)) entry hentry
  obtain ⟨before, behind, rfl⟩ := List.append_of_mem hentry
  obtain ⟨hbefore, hlsn, hbehind⟩ := stacked_append.mp hextends.stacked
  have hlength := hbefore.length
  rw [hlsn] at hlength
  have hbytes : (content.drop entry.lsn).toBytes
      = entry.frame.bytes ++ bytesOf (behind.map LogEntry.frame) := by
    rw [Content.toBytes_drop, hextends.bytes, List.map_append, bytesOf_append, ← List.append_assoc,
      List.drop_left' (by rw [List.length_append, hlength]), List.map_cons, bytesOf_cons]
  have hinside : ¬ Content.maxPosition < entry.lsn + logHeaderSize := by
    have hsize := LogFrame.size_content hbytes
    have hleast := entry.frame.logHeaderSize_le
    rw [Content.size_drop] at hsize
    simp only [logHeaderSize] at hleast ⊢
    omega
  simp only [Log.read, if_neg hinside, entry.readFrame_eq hfits hbytes]
  rfl

/-- What a log reads that was opened on a file of these frames and has then written these works. -/
structure ReadsBack (log : Log) (frames : List LogFrame) (works : List (TransactionId × LogRecord))
    (content : Content) (entries : List LogEntry) : Prop where
  marks : entries.map LogEntry.mark = works
  next : log.next = content.size
  records : (∀ frame ∈ frames, (LogRecord.decode? frame.body).isSome = true) →
    ∃ old, Described 0 frames old ∧ log.records content = .ok (old ++ entries)
  read : ∀ entry ∈ entries, read content entry.lsn = .ok entry
  previous : ∀ front entry back, entries = front ++ entry :: back →
    ∀ lsn, entry.previous = some lsn ↔ Follows entry.transaction front lsn

/-- Whatever is written to a log that opens is read back, behind the records that it had.  A file
has no byte behind the largest position. -/
theorem reads_back {disk made written : Disk} {path : String} {log last : Log}
    {works : List (TransactionId × LogRecord)} {entries : List LogEntry}
    (hopen : openFile disk path = (.ok log, made))
    (hlengths : ∀ work ∈ works, logHeaderSize + work.2.encode.length < UInt32.size)
    (hwritten : log.writeAll made works = (entries, last, written))
    (hroom : (written.content log.location).size ≤ Content.maxPosition) :
    ∃ frames, Framed (made.content log.location) frames ∧
      (made.content log.location).toBytes <+: (disk.content log.location).toBytes ∧
      last.ReadsBack frames works (written.content log.location) entries := by
  obtain ⟨frames, hframed, hkept⟩ := framed_of_openFile hopen
  refine ⟨frames, hframed, hkept, ?_⟩
  obtain ⟨opened, kept, hfile, hcontent, rfl⟩ := openFile_eq_ok_iff.mp hopen
  have hlocation := Disk.location_ne_nil_of_openFile hfile
  have hbegins := begins_of_openContent hcontent
  rw [Disk.content_write_same opened hlocation] at hframed
  have hstart : log.Extends kept.toBytes ((opened.write log.location kept).content log.location)
      [] := by
    rw [Disk.content_write_same opened hlocation]
    exact hbegins.extends
  obtain ⟨-, hextends, -⟩ := hstart.writeAll hlocation hlengths hwritten
  rw [List.nil_append] at hextends
  obtain ⟨hmarks, hchained⟩ := writeAll_chained hwritten
  rw [hbegins.last] at hchained
  have hfits := hextends.fits_of_size (Nat.lt_of_le_of_lt hroom (by decide))
  exact {
    marks := hmarks
    next := by rw [hextends.next, hextends.size]
    records := by
      intro hdecode
      obtain ⟨old, hdescribed, hread⟩ := described_of_framed hframed hdecode 0
      rw [Nat.zero_add, ← hbegins.next] at hread
      exact ⟨old, hdescribed, hextends.records hfits hbegins.next hread⟩
    read := hextends.read hroom
    previous := by
      rintro front entry back rfl lsn
      exact previous_iff_follows hchained }

/-- Two transactions write in turns behind a commit and the torn front of another record. -/
theorem reads_back_sample :
    let commit : LogFrame := ⟨9, noPrevious, [2]⟩
    let disk : Disk := ⟨[(["log"], .file (.ofBytes (commit.bytes ++ commit.bytes.take 10)))], []⟩
    let made := disk.write ["log"] ((disk.content ["log"]).take 25)
    let works : List (TransactionId × LogRecord) :=
      [(3, .update ⟨5, 0⟩ [] [1]), (7, .update ⟨5, 1⟩ [] []), (3, .update ⟨5, 0⟩ [1] []),
        (3, .commit), (3, .update ⟨5, 2⟩ [] []), (7, .abort)]
    let (entries, last, written) := (⟨["log"], 25, [], some 9⟩ : Log).writeAll made works
    entries.map LogEntry.previous = [none, none, some 25, some 108, none, some 67] ∧
    ∃ frames, Framed (made.content ["log"]) frames ∧
      (made.content ["log"]).toBytes <+: (disk.content ["log"]).toBytes ∧
      last.ReadsBack frames works (written.content ["log"]) entries := by
  intro commit disk made works
  have hfits : commit.Fits := ⟨by decide, by decide⟩
  have hbytes : (disk.content ["log"]).toBytes = bytesOf [commit] ++ commit.bytes.take 10 := by
    decide +kernel
  have hcontent := openContent_frames (by simpa using hfits) hbytes (ends_take hfits (by decide))
    ["log"]
  have hlength : (bytesOf [commit]).length = 25 := by simp [commit, LogFrame.length, logHeaderSize]
  rw [hlength] at hcontent
  have hopen : openFile disk "log" = (.ok ⟨["log"], 25, [], some 9⟩, made) :=
    openFile_eq_ok_iff.mpr ⟨disk, _, rfl, hcontent, rfl⟩
  exact ⟨by decide +kernel, reads_back hopen (by decide) rfl (by decide +kernel)⟩

end Log

end HeapStore
