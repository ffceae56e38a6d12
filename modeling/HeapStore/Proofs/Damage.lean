import HeapStore.Proofs.Recovery

/-!
# Damage in the log

One record of a log file is altered and others follow it.  The walk finds the records behind a
damaged one only through its length, so the length that stands there now decides.  If it leads to a
place inside the file, opening refuses the file and leaves it as it is.  If it is shorter than a
header, or leads to the end of the file or beyond it, the damage is taken for a torn end: the log
opens, and the damaged record is cut off with all the records behind it.  An alteration that spares
the length is therefore always refused.
-/

namespace HeapStore

/-! ## What the walk sees -/

/-- The header at the front of the rest of a log. -/
def LogHeader.front (rest : Content) : LogHeader :=
  LogHeader.ofBytes (rest.slice 0 logHeaderSize)

/-- The length is read off the first four bytes. -/
theorem LogHeader.length_front (rest : Content) :
    (LogHeader.front rest).length = Bytes.toNat (rest.slice 0 4) := by
  simp [LogHeader.front, LogHeader.ofBytes, Content.slice_eq, Bytes.slice, logHeaderSize,
    List.take_take]

/-- What stands at the front does not pass for a record: its length is less than that of a header
or reaches over the end, or its checksum is wrong. -/
def Damaged (rest : Content) : Prop :=
  (LogHeader.front rest).length < logHeaderSize ∨
    rest.size < (LogHeader.front rest).length ∨
    (LogHeader.front rest).matchesBody rest = false

/-- The length at the front leads to a place before the end. -/
def LeadsInside (rest : Content) : Prop :=
  logHeaderSize ≤ (LogHeader.front rest).length ∧ (LogHeader.front rest).length < rest.size

instance (rest : Content) : Decidable (LeadsInside rest) :=
  inferInstanceAs (Decidable (_ ∧ _))

instance (rest : Content) : Decidable (Damaged rest) :=
  inferInstanceAs (Decidable (_ ∨ _ ∨ _))

namespace LogHead

/-- Only the bytes count, not how the content holds them. -/
theorem ofContent_congr {rest other : Content} (hbytes : rest.toBytes = other.toBytes) :
    ofContent rest = ofContent other := by
  simp only [ofContent, LogHeader.matchesBody, LogHeader.body, Content.slice_eq,
    Content.size_eq_length, hbytes]

/-- Damage is recognised as such if the length leads to a place before the end. -/
theorem ofContent_damaged {rest : Content} (hheaded : logHeaderSize ≤ rest.size)
    (hdamaged : Damaged rest) :
    ofContent rest = if LeadsInside rest then .corrupt else .torn := by
  have hsome : ¬ rest.size = 0 := by
    simp only [logHeaderSize] at hheaded
    omega
  simp only [ofContent, if_neg hsome, if_neg (Nat.not_lt.mpr hheaded)]
  rw [← LogHeader.front]
  by_cases hlength : (LogHeader.front rest).length < logHeaderSize ∨
      rest.size < (LogHeader.front rest).length
  · have hout : ¬ LeadsInside rest := by
      simp only [LeadsInside]
      omega
    rw [if_neg hout, if_pos (by simpa using hlength)]
  · have hchecksum : (LogHeader.front rest).matchesBody rest = false := by
      rcases hdamaged with hshort | hlong | hchecksum
      · exact absurd (.inl hshort) hlength
      · exact absurd (.inr hlong) hlength
      · exact hchecksum
    rw [if_neg (by simpa using hlength), hchecksum]
    -- The length passes its check, so it may still lead exactly to the end.
    by_cases hend : (LogHeader.front rest).length = rest.size
    · have hout : ¬ LeadsInside rest := by
        simp only [LeadsInside]
        omega
      simp [hend, hout]
    · have hin : LeadsInside rest := by
        simp only [LeadsInside]
        omega
      simp [hend, hin]

end LogHead

/-! ## Altered records -/

/-- One record of a file was altered; the file is as long as before. -/
structure LogEntry.Altered (entry : LogEntry) (content altered : Content) : Prop where
  size : altered.size = content.size
  before : altered.toBytes.take entry.lsn = content.toBytes.take entry.lsn
  behind : altered.toBytes.drop entry.stop = content.toBytes.drop entry.stop

namespace Log

section

variable {log : Log} {content altered : Content} {front back : List LogEntry} {entry : LogEntry}

/-- A record stands behind the bytes of those before it. -/
theorem Holds.lsn_eq (hholds : log.Holds content (front ++ entry :: back)) :
    entry.lsn = (bytesOf (front.map LogEntry.frame)).length := by
  obtain ⟨hfront, hlsn, -⟩ := stacked_append.mp hholds.stacked
  rw [← hlsn, ← hfront.length, Nat.zero_add]

/-- A record that others follow ends before the file does. -/
theorem Holds.stop_lt (hholds : log.Holds content (front ++ entry :: back)) (hback : back ≠ []) :
    entry.stop < content.size := by
  obtain ⟨-, -, hbehind⟩ := stacked_append.mp hholds.stacked
  cases back with
  | nil => exact absurd rfl hback
  | cons next rest =>
    rw [hholds.size, stopOf_append, stopOf_cons, stopOf_cons]
    calc entry.stop = next.lsn := hbehind.1
      _ < next.stop := next.lsn_lt_stop
      _ ≤ stopOf next.stop rest := hbehind.2.le_stopOf

/-- The bytes before an altered record are as they were. -/
theorem Holds.toBytes_altered (hholds : log.Holds content (front ++ entry :: back))
    (haltered : entry.Altered content altered) :
    altered.toBytes =
      bytesOf (front.map LogEntry.frame) ++ (altered.drop entry.lsn).toBytes := by
  have hfront : altered.toBytes.take entry.lsn = bytesOf (front.map LogEntry.frame) := by
    rw [haltered.before, hholds.bytes, hholds.lsn_eq, List.map_append, bytesOf_append,
      List.take_left]
  rw [← hfront, Content.toBytes_drop, List.take_append_drop]

/-- Its own bytes and those of the records behind it stand at the position of a record. -/
theorem Holds.toBytes_drop (hholds : log.Holds content (front ++ entry :: back)) :
    (content.drop entry.lsn).toBytes =
      entry.frame.bytes ++ bytesOf (back.map LogEntry.frame) := by
  rw [Content.toBytes_drop, hholds.bytes, hholds.lsn_eq, List.map_append, bytesOf_append,
    List.drop_left, List.map_cons, bytesOf_cons]

theorem Holds.logHeaderSize_le (hholds : log.Holds content (front ++ entry :: back))
    (haltered : entry.Altered content altered) (hback : back ≠ []) :
    logHeaderSize ≤ (altered.drop entry.lsn).size := by
  rw [Content.size_drop, haltered.size]
  exact Nat.le_sub_of_add_le' (Nat.le_trans
    (Nat.add_le_add_left entry.frame.logHeaderSize_le _) (Nat.le_of_lt (hholds.stop_lt hback)))

/-- The walk over a file in which one record but the last was altered and damaged. -/
theorem Holds.walk_altered (hholds : log.Holds content (front ++ entry :: back)) (hback : back ≠ [])
    (hsize : content.size < UInt64.size) (haltered : entry.Altered content altered)
    (hdamaged : Damaged (altered.drop entry.lsn)) :
    walk 0 none altered =
      if LeadsInside (altered.drop entry.lsn)
      then .error (.file (.corruptRecord entry.lsn .checksumMismatch))
      else .ok (entry.lsn, (front.map LogEntry.transaction).max?) := by
  have hfits : ∀ frame ∈ front.map LogEntry.frame, frame.Fits := by
    intro frame hframe
    obtain ⟨other, hother, rfl⟩ := List.mem_map.mp hframe
    exact (hholds.fits_of_size hsize other (List.mem_append_left _ hother)).frame
  obtain ⟨rest, hrest, hwalk⟩ := walk_frames hfits (hholds.toBytes_altered haltered) 0 none
  rw [foldl_maxTransaction, List.map_map, ← hholds.lsn_eq, Nat.zero_add] at hwalk
  have hhead := LogHead.ofContent_damaged (hholds.logHeaderSize_le haltered hback) hdamaged
  rw [← LogHead.ofContent_congr hrest] at hhead
  rw [hwalk]
  split at hhead
  · rename_i hinside
    rw [walk_of_corrupt hhead, if_pos hinside]
  · rename_i hinside
    rw [walk_of_end (.inr hhead), if_neg hinside]
    rfl

end

/-- A damaged record whose length leads to a place before the end is reported, and nothing is
changed. -/
theorem Holds.refused {log : Log} {content : Content} {front back : List LogEntry}
    {entry : LogEntry} {disk made : Disk} {path : String} {location : Location}
    (hholds : log.Holds content (front ++ entry :: back)) (hback : back ≠ [])
    (hsize : content.size < UInt64.size)
    (hopen : disk.openFile (Path.ofString path) = .ok (location, made))
    (haltered : entry.Altered content (disk.content location))
    (hdamaged : Damaged ((disk.content location).drop entry.lsn))
    (hinside : LeadsInside ((disk.content location).drop entry.lsn)) :
    openFile disk path = (.error (.file (.corruptRecord entry.lsn .checksumMismatch)), disk) := by
  have hwalk := hholds.walk_altered hback hsize haltered hdamaged
  rw [if_pos hinside] at hwalk
  have hmade : made = disk := by
    apply Disk.made_of_openFile hopen
    rw [haltered.size]
    exact Nat.zero_lt_of_lt (hholds.stop_lt hback)
  simp only [openFile, hopen, hmade, openContent, hwalk, bind, Except.bind]

/-- Opening reports a damaged record if its length leads to a place inside the file, and leaves the
file alone.  Otherwise it cuts off the record and all that follow it. -/
theorem damage_refused_or_cut {log : Log} {content : Content} {front back : List LogEntry}
    {entry : LogEntry} {disk made : Disk} {path : String} {location : Location}
    (hholds : log.Holds content (front ++ entry :: back)) (hback : back ≠ [])
    (hsize : content.size < UInt64.size)
    (hopen : disk.openFile (Path.ofString path) = .ok (location, made))
    (haltered : entry.Altered content (disk.content location))
    (hdamaged : Damaged ((disk.content location).drop entry.lsn)) :
    if LeadsInside ((disk.content location).drop entry.lsn) then
      openFile disk path = (.error (.file (.corruptRecord entry.lsn .checksumMismatch)), disk)
    else ∃ reopened after, openFile disk path = (.ok reopened, after) ∧
      (after.content location).toBytes = content.toBytes.take entry.lsn ∧
      reopened.next = entry.lsn ∧
      reopened.recovered = (front.map LogEntry.transaction).max? := by
  have hlocation := Disk.location_ne_nil_of_openFile hopen
  split
  · rename_i hinside
    exact hholds.refused hback hsize hopen haltered hdamaged hinside
  · rename_i hinside
    have hwalk := hholds.walk_altered hback hsize haltered hdamaged
    rw [if_neg hinside] at hwalk
    let reopened : Log := ⟨location, entry.lsn, [], (front.map LogEntry.transaction).max?⟩
    have hcontent : openContent location (disk.content location) =
        .ok (reopened, (disk.content location).take entry.lsn) := by
      simp only [openContent, hwalk, bind, Except.bind, pure, Except.pure, reopened]
    have hcut : ((made.write location ((disk.content location).take entry.lsn)).content
        location).toBytes = content.toBytes.take entry.lsn := by
      rw [Disk.content_write_same made hlocation, Content.toBytes_take, haltered.before]
    exact ⟨reopened, _, openFile_eq_ok_iff.mpr ⟨made, _, hopen, hcontent, rfl⟩, hcut, rfl, rfl⟩

/-- A log on an empty file. -/
def fresh : Log :=
  ⟨["log"], 0, [], none⟩

/-- The file after two transactions have committed. -/
def twoCommits : Content :=
  let empty : Disk := ⟨[(["log"], .file .empty)], []⟩
  (fresh.writeAll empty [(1, .commit), (2, .commit)]).2.2.content ["log"]

/-- A disk on which the first record of this file was overwritten from `offset` on with zeros. -/
def zeroedAt (offset : Nat) : Disk :=
  ⟨[(["log"], .file (twoCommits.splice offset [0, 0, 0, 0]))], []⟩

theorem holds_twoCommits :
    ∃ log : Log, log.Holds twoCommits [⟨0, 1, none, .commit⟩, ⟨25, 2, none, .commit⟩] := by
  let empty : Disk := ⟨[(["log"], .file .empty)], []⟩
  let records : List (TransactionId × LogRecord) := [(1, .commit), (2, .commit)]
  have hempty : fresh.Holds (empty.content fresh.location) [] := .of_empty ["log"] none rfl
  have hlengths : ∀ work ∈ records, logHeaderSize + work.2.encode.length < UInt32.size := by
    decide
  exact ⟨_, (hempty.writeAll (by decide) hlengths rfl).2.1⟩

/-- A wrong checksum in the first of two records is reported. -/
theorem damage_refused_or_cut_sample :
    openFile (zeroedAt 20) "log" =
      (.error (.file (.corruptRecord 0 .checksumMismatch)), zeroedAt 20) := by
  obtain ⟨log, hholds⟩ := holds_twoCommits
  have hfile : (zeroedAt 20).openFile (Path.ofString "log") = .ok (["log"], zeroedAt 20) := rfl
  have hinside : LeadsInside (((zeroedAt 20).content ["log"]).drop 0) := by decide +kernel
  have hfirst : log.Holds twoCommits ([] ++ ⟨0, 1, none, .commit⟩ :: [⟨25, 2, none, .commit⟩]) :=
    hholds
  have hopened := damage_refused_or_cut hfirst (by decide) (by decide +kernel) hfile
    ⟨by decide +kernel, by decide +kernel, by decide +kernel⟩ (by decide +kernel)
  rwa [if_pos hinside] at hopened

/-- A length of zero in the first of two records: the log opens, and both records are gone. -/
theorem damage_cuts_sound_record :
    ∃ (log : Log) (first second : LogEntry), log.Holds twoCommits [first, second] ∧
      first.Altered twoCommits ((zeroedAt 0).content ["log"]) ∧
      Damaged (((zeroedAt 0).content ["log"]).drop first.lsn) ∧
      ∃ after, openFile (zeroedAt 0) "log" = (.ok fresh, after) ∧
        (after.content ["log"]).toBytes = [] := by
  obtain ⟨log, hholds⟩ := holds_twoCommits
  have hhead : LogHead.ofContent ((zeroedAt 0).content ["log"]) = .torn := by decide +kernel
  have hwalk : walk 0 none ((zeroedAt 0).content ["log"]) = .ok (0, none) :=
    walk_of_end (.inr hhead)
  have hcontent : openContent ["log"] ((zeroedAt 0).content ["log"]) =
      .ok (fresh, ((zeroedAt 0).content ["log"]).take 0) := by
    simp only [openContent, hwalk, bind, Except.bind, pure, Except.pure, fresh]
  exact ⟨log, _, _, hholds, ⟨by decide +kernel, by decide +kernel, by decide +kernel⟩,
    by decide +kernel, _, openFile_eq_ok_iff.mpr ⟨zeroedAt 0, _, rfl, hcontent, rfl⟩, rfl⟩

/-- An alteration that spares the length of the record is refused. -/
theorem damage_beside_length_refused {log : Log} {content : Content} {front back : List LogEntry}
    {entry : LogEntry} {disk made : Disk} {path : String} {location : Location}
    (hholds : log.Holds content (front ++ entry :: back)) (hback : back ≠ [])
    (hsize : content.size < UInt64.size)
    (hopen : disk.openFile (Path.ofString path) = .ok (location, made))
    (haltered : entry.Altered content (disk.content location))
    (hspared : (disk.content location).slice entry.lsn 4 = content.slice entry.lsn 4)
    (hdamaged : Damaged ((disk.content location).drop entry.lsn)) :
    openFile disk path = (.error (.file (.corruptRecord entry.lsn .checksumMismatch)), disk) := by
  have hentry : entry.Fits :=
    hholds.fits_of_size hsize entry (List.mem_append_right _ List.mem_cons_self)
  have hheader : LogHeader.front (content.drop entry.lsn) = entry.frame.header :=
    LogFrame.ofBytes_slice hentry.frame
      (by rw [hholds.toBytes_drop, LogFrame.bytes, List.append_assoc])
  have hslice : ∀ other : Content,
      (other.drop entry.lsn).slice 0 4 = other.slice entry.lsn 4 := fun other => by
    simp [Content.slice_eq, Bytes.slice]
  have hlength : (LogHeader.front ((disk.content location).drop entry.lsn)).length
      = entry.length := by
    rw [LogHeader.length_front, hslice, hspared, ← hslice, ← LogHeader.length_front, hheader]
    rfl
  refine hholds.refused hback hsize hopen haltered hdamaged ⟨?_, ?_⟩
  · rw [hlength]
    exact entry.frame.logHeaderSize_le
  · rw [hlength, Content.size_drop, haltered.size]
    exact Nat.lt_sub_iff_add_lt'.mpr (hholds.stop_lt hback)

end Log

end HeapStore
