import HeapStore.Proofs.Damage

/-!
# The sound front of a log file

A log file may hold any bytes.  At its front stands a longest row of frames (`Longest`); which one
that is, is determined by the bytes, for two frames at the front of the same bytes are the same
frame.  The walk goes past exactly these frames (`walk_cases`), in no more turns than headers have
room in the file (`walkWithin_eq`).

`open_keeps_longest` says what opening makes of the file.  If it succeeds, the file is cut to these
frames, and opening it again finds the same log and cuts nothing more.  If it fails, no file has
changed: the path leads to no file that can be opened, or what follows the frames is damaged and
more of the log stands behind it.
-/

namespace HeapStore

/-! ## Frames at the front -/

namespace LogFrame

/-- Bytes that start with a frame start with no other one. -/
theorem eq_of_append_eq {frame other : LogFrame} (hframe : frame.Fits) (hother : other.Fits)
    {tail rest : Bytes} (hbytes : frame.bytes ++ tail = other.bytes ++ rest) :
    frame = other ∧ tail = rest := by
  have hshown : ∀ shown : LogFrame, shown.Fits → ∀ behind, frame.bytes ++ tail
      = shown.bytes ++ behind →
      LogHeader.ofBytes ((Content.ofBytes (frame.bytes ++ tail)).slice 0 logHeaderSize)
        = shown.header := by
    intro shown hfits behind hfront
    apply ofBytes_slice hfits
    rw [Content.toBytes_ofBytes, hfront, bytes, List.append_assoc]
  have hheader : frame.header = other.header :=
    (hshown frame hframe tail rfl).symm.trans (hshown other hother rest hbytes)
  have hlength : frame.bytes.length = other.bytes.length := by
    rw [length_bytes, length_bytes]
    exact congrArg LogHeader.length hheader
  obtain ⟨hsame, hrest⟩ := List.append_inj hbytes hlength
  have hbody : frame.body = other.body := by
    rw [bytes, bytes, hheader] at hsame
    exact List.append_cancel_left hsame
  have htransaction : frame.transaction = other.transaction :=
    congrArg LogHeader.transaction hheader
  have hprevious : frame.previous = other.previous := congrArg LogHeader.previous hheader
  refine ⟨?_, hrest⟩
  cases frame
  cases other
  simp_all

end LogFrame

namespace Log

/-- No frame stands at the front of the bytes. -/
def Frameless (bytes : Bytes) : Prop :=
  ∀ frame : LogFrame, frame.Fits → ¬ frame.bytes <+: bytes

theorem frameless_of_head {rest : Content}
    (hhead : ∀ transaction length, LogHead.ofContent rest ≠ .record transaction length) :
    Frameless rest.toBytes := by
  rintro frame hfits ⟨tail, hbytes⟩
  exact hhead _ _ (LogFrame.head_eq_record hfits hbytes.symm)

/-- The frames are a longest row of frames at the front of the bytes. -/
structure Longest (bytes : Bytes) (frames : List LogFrame) : Prop where
  fits : ∀ frame ∈ frames, frame.Fits
  front : bytesOf frames <+: bytes
  longest : ∀ others : List LogFrame, (∀ frame ∈ others, frame.Fits) →
    bytesOf others <+: bytes → (bytesOf others).length ≤ (bytesOf frames).length

/-- A row of frames that goes as far as no frame follows begins with every other one. -/
theorem prefix_of_frameless {frames others : List LogFrame}
    (hframes : ∀ frame ∈ frames, frame.Fits) (hothers : ∀ frame ∈ others, frame.Fits)
    {tail rest : Bytes} (hbytes : bytesOf frames ++ tail = bytesOf others ++ rest)
    (htail : Frameless tail) : others <+: frames := by
  induction others generalizing frames with
  | nil => exact List.nil_prefix
  | cons other others ih =>
      have hother := hothers other List.mem_cons_self
      rw [bytesOf_cons, List.append_assoc] at hbytes
      cases frames with
      | nil => exact absurd ⟨_, hbytes.symm⟩ (htail other hother)
      | cons frame frames =>
          rw [bytesOf_cons, List.append_assoc] at hbytes
          obtain ⟨rfl, hmore⟩ :=
            LogFrame.eq_of_append_eq (hframes frame List.mem_cons_self) hother hbytes
          apply List.cons_prefix_cons.mpr
          exact ⟨rfl, ih (fun each heach => hframes each (.tail _ heach))
            (fun each heach => hothers each (.tail _ heach)) hmore⟩

theorem longest_of_frameless {frames : List LogFrame} (hframes : ∀ frame ∈ frames, frame.Fits)
    {bytes tail : Bytes} (hbytes : bytes = bytesOf frames ++ tail) (htail : Frameless tail) :
    Longest bytes frames where
  fits := hframes
  front := ⟨tail, hbytes.symm⟩
  longest others hothers := by
    rintro ⟨rest, hrest⟩
    obtain ⟨more, rfl⟩ :=
      prefix_of_frameless hframes hothers (hbytes.symm.trans hrest.symm) htail
    rw [bytesOf_append, List.length_append]
    exact Nat.le_add_right _ _

/-! ## The walk -/

/-- Where the walk over a content ends: it has gone past some frames, and then either it is over, or
it has come to damage with more of the log behind it. -/
theorem walk_cases (position : Lsn) (largest : Option TransactionId) (content : Content) :
    ∃ (frames : List LogFrame) (rest : Content), (∀ frame ∈ frames, frame.Fits) ∧
      content.toBytes = bytesOf frames ++ rest.toBytes ∧ Frameless rest.toBytes ∧
      (LogHead.ofContent rest = .corrupt ∧ walk position largest content
          = .error (.file (.corruptRecord (position + (bytesOf frames).length)
              .checksumMismatch)) ∨
        (LogHead.ofContent rest = .done ∨ LogHead.ofContent rest = .torn) ∧
          walk position largest content = .ok (position + (bytesOf frames).length,
            (frames.map LogFrame.transaction).foldl maxTransaction largest)) := by
  fun_induction walk position largest content with
  | case1 position largest content hhead =>
      exact ⟨[], content, by simp, rfl, frameless_of_head (by simp [hhead]),
        .inr ⟨.inl hhead, rfl⟩⟩
  | case2 position largest content hhead =>
      exact ⟨[], content, by simp, rfl, frameless_of_head (by simp [hhead]),
        .inr ⟨.inr hhead, rfl⟩⟩
  | case3 position largest content hhead =>
      exact ⟨[], content, by simp, rfl, frameless_of_head (by simp [hhead]), .inl ⟨hhead, rfl⟩⟩
  | case4 position largest content transaction length hhead ih =>
      obtain ⟨frame, hfits, hlength, hbytes⟩ := LogFrame.of_head hhead
      have hagain := LogFrame.head_eq_record hfits hbytes
      rw [hhead] at hagain
      obtain ⟨rfl, -⟩ := LogHead.record.inj hagain
      obtain ⟨frames, rest, hframes, hmore, hnone, hends⟩ := ih
      rw [Content.toBytes_drop] at hmore
      have hposition : position + length + (bytesOf frames).length
          = position + (bytesOf (frame :: frames)).length := by
        rw [bytesOf_cons, List.length_append, LogFrame.length_bytes, hlength, Nat.add_assoc]
      rw [hposition] at hends
      refine ⟨frame :: frames, rest, List.forall_mem_cons.mpr ⟨hfits, hframes⟩, ?_, hnone, hends⟩
      rw [bytesOf_cons, List.append_assoc, ← hmore]
      exact hbytes

/-- The walk, given up after so many turns. -/
def walkWithin : (turns : Nat) → Lsn → Option TransactionId → Content →
    Option (Except StoreError (Lsn × Option TransactionId))
  | 0, _, _, _ => none
  | turns + 1, position, largest, rest =>
    match LogHead.ofContent rest with
    | .done => some (.ok (position, largest))
    | .torn => some (.ok (position, largest))
    | .corrupt => some (.error (.file (.corruptRecord position .checksumMismatch)))
    | .record transaction length =>
      walkWithin turns (position + length) (maxTransaction largest transaction) (rest.drop length)

/-- The walk ends: each turn but the last goes past a header. -/
theorem walkWithin_eq {turns : Nat} {content : Content}
    (hturns : content.size / logHeaderSize < turns) (position : Lsn)
    (largest : Option TransactionId) :
    walkWithin turns position largest content = some (walk position largest content) := by
  induction turns generalizing position largest content with
  | zero => exact absurd hturns (Nat.not_lt_zero _)
  | succ turns ih =>
      cases hhead : LogHead.ofContent content with
      | done => rw [walk_of_end (.inl hhead), walkWithin, hhead]
      | torn => rw [walk_of_end (.inr hhead), walkWithin, hhead]
      | corrupt => rw [walk_of_corrupt hhead, walkWithin, hhead]
      | record transaction length =>
          obtain ⟨hleast, hinside⟩ := LogHead.length_of_record hhead
          have hless : (content.drop length).size / logHeaderSize < turns := by
            rw [Content.size_drop]
            simp only [logHeaderSize] at hturns hleast ⊢
            omega
          rw [walk_of_record hhead, walkWithin, hhead]
          exact ih hless _ _

/-! ## Opening -/

/-- What opening makes of a log file that it does not refuse, where these frames stand at its front:
the file is cut to them, the log goes on behind them, and opening the file again gives the same
log and changes no byte. -/
structure Recovers (disk : Disk) (path : String) (frames : List LogFrame) (log : Log)
    (after : Disk) : Prop where
  opened : openFile disk path = (.ok log, after)
  longest : Longest (disk.content log.location).toBytes frames
  file : (after.content log.location).toBytes = bytesOf frames
  others : disk.Rewritten log.location after
  next : log.next = (bytesOf frames).length
  recovered : log.recovered = (frames.map LogFrame.transaction).max?
  again : ∃ last, openFile after path = (.ok log, last) ∧
    ∀ location, (last.content location).toBytes = (after.content location).toBytes

/-- Why opening refuses a log file: the path leads to no file, or what follows the frames at the
front is damaged and leads to a place inside the file. -/
inductive Refuses (disk : Disk) (path : String) : StoreError → Prop
  | disk {error : DiskError} (hrefused : disk.openFile (Path.ofString path) = .error error) :
      Refuses disk path (.ofDisk error)
  | damaged {location : Location} {frames : List LogFrame}
      (hfile : disk.openFile (Path.ofString path) = .ok (location, disk))
      (hlongest : Longest (disk.content location).toBytes frames)
      (hdamaged : Damaged ((disk.content location).drop (bytesOf frames).length))
      (hinside : LeadsInside ((disk.content location).drop (bytesOf frames).length)) :
      Refuses disk path (.file (.corruptRecord (bytesOf frames).length .checksumMismatch))

/-- Damage with more of the log behind it: what stands there passes for no record, and its length
leads to a place inside the file. -/
theorem damaged_of_corrupt {rest : Content} (hhead : LogHead.ofContent rest = .corrupt) :
    Damaged rest ∧ LeadsInside rest := by
  simp only [LogHead.ofContent] at hhead
  rw [← LogHeader.front] at hhead
  split at hhead
  · exact absurd hhead (by simp)
  · split at hhead
    · exact absurd hhead (by simp)
    · split at hhead
      · exact absurd hhead (by simp)
      · rename_i hfits
        simp only [Bool.or_eq_true, decide_eq_true_eq, not_or, Nat.not_lt] at hfits
        split at hhead
        · exact absurd hhead (by simp)
        · rename_i hmatches
          split at hhead
          · exact absurd hhead (by simp)
          · rename_i hend
            refine ⟨.inr (.inr (by simpa using hmatches)), hfits.1, ?_⟩
            exact Nat.lt_of_le_of_ne hfits.2 hend

/-- A file that was cut to frames is opened again as it is. -/
theorem open_again {disk made : Disk} {path : String} {location : Location} {kept : Content}
    {frames : List LogFrame} (hfile : disk.openFile (Path.ofString path) = .ok (location, made))
    (hframes : ∀ frame ∈ frames, frame.Fits) (hkept : kept.toBytes = bytesOf frames) :
    ∃ last, openFile (made.write location kept) path =
        (.ok ⟨location, (bytesOf frames).length, [], (frames.map LogFrame.transaction).max?⟩,
          last) ∧
      ∀ other,
        (last.content other).toBytes = ((made.write location kept).content other).toBytes := by
  have hlocation := Disk.location_ne_nil_of_openFile hfile
  have hagain := Disk.openFile_again hfile
    ((Disk.rewritten_of_openFile hfile).write hlocation kept)
    (Disk.entry_write_same made hlocation kept)
  have hbytes : kept.toBytes = bytesOf frames ++ [] := by rw [hkept, List.append_nil]
  have hopen : openContent location ((made.write location kept).content location) = .ok
      (⟨location, (bytesOf frames).length, [], (frames.map LogFrame.transaction).max?⟩,
        kept.take (bytesOf frames).length) := by
    rw [Disk.content_write_same made hlocation]
    exact openContent_frames hframes hbytes ends_nil location
  refine ⟨_, openFile_eq_ok_iff.mpr ⟨_, _, hagain, hopen, rfl⟩, ?_⟩
  · intro other
    rw [Disk.content_write _ hlocation, Disk.content_write _ hlocation]
    split
    · rw [Content.toBytes_take, List.take_of_length_le (Nat.le_of_eq (by rw [hkept]))]
    · rfl

/-- Opening a file of any bytes cuts it to the longest row of frames at its front, or refuses it and
changes nothing, and it comes to an end. -/
theorem open_keeps_longest (disk : Disk) (path : String) :
    ((∃ frames log after, Recovers disk path frames log after) ∨
      ∃ error, openFile disk path = (.error error, disk) ∧ Refuses disk path error) ∧
    ∀ content : Content, walkWithin (content.size / logHeaderSize + 1) 0 none content
      = some (walk 0 none content) := by
  refine ⟨?_, fun content => walkWithin_eq (Nat.lt_succ_self _) 0 none⟩
  cases hfile : disk.openFile (Path.ofString path) with
  | error refused => exact .inr ⟨_, by simp only [openFile, hfile], .disk hfile⟩
  | ok found =>
      obtain ⟨location, made⟩ := found
      obtain ⟨frames, rest, hframes, hbytes, hnone, hends⟩ :=
        walk_cases 0 none (disk.content location)
      have hlongest := longest_of_frameless hframes hbytes hnone
      rw [Nat.zero_add, foldl_maxTransaction] at hends
      rcases hends with ⟨hhead, hwalk⟩ | ⟨-, hwalk⟩
      · -- there is a damaged record, so the file was there and nothing was made
        have hrest : rest.toBytes
            = ((disk.content location).drop (bytesOf frames).length).toBytes := by
          rw [Content.toBytes_drop, hbytes, List.drop_left]
        have hhead' : LogHead.ofContent
            ((disk.content location).drop (bytesOf frames).length) = .corrupt := by
          rw [← LogHead.ofContent_congr hrest, hhead]
        obtain ⟨hdamaged, hinside⟩ := damaged_of_corrupt hhead'
        have hsize : 0 < (disk.content location).size := by
          have hless := hinside.2
          rw [Content.size_drop] at hless
          omega
        obtain rfl := Disk.made_of_openFile hfile hsize
        refine .inr ⟨_, ?_, .damaged hfile hlongest hdamaged hinside⟩
        simp only [openFile, hfile, openContent, hwalk, bind, Except.bind]
      · have hlocation := Disk.location_ne_nil_of_openFile hfile
        have hkept : ((disk.content location).take (bytesOf frames).length).toBytes
            = bytesOf frames := by
          rw [Content.toBytes_take, hbytes, List.take_left]
        let log : Log :=
          ⟨location, (bytesOf frames).length, [], (frames.map LogFrame.transaction).max?⟩
        have hopen : openContent log.location (disk.content log.location)
            = .ok (log, (disk.content location).take (bytesOf frames).length) :=
          openContent_eq_ok_iff.mpr ⟨_, _, hwalk, rfl, rfl⟩
        refine .inl ⟨frames, log, _, {
          opened := openFile_eq_ok_iff.mpr ⟨made, _, hfile, hopen, rfl⟩
          longest := hlongest
          file := by rw [Disk.content_write_same made hlocation, hkept]
          others := (Disk.rewritten_of_openFile hfile).write hlocation _
          next := rfl
          recovered := rfl
          again := open_again hfile hframes hkept }⟩

end Log

end HeapStore
