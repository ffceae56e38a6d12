import HeapStore.Log.Frame
import HeapStore.Proofs.Bytes

/-!
# Laws of log frames

A `LogFrame` is a record as it stands in a log file: the fields of its header that are chosen
freely, and a body.  The bytes of a frame whose fields have room in its header are read back at the
front of any content: the header by `LogHeader.ofBytes`, the whole frame by `LogHead.ofContent`,
and a frame that holds the stored form of a record by `readFrame`.  A frame of which only the
first bytes are there is never taken for a record and never for damage.
-/

namespace HeapStore

/-- What stands between a front and a back, counted off. -/
theorem Bytes.slice_between {offset count : Nat} {front middle : Bytes} (back : Bytes)
    (hoffset : front.length = offset) (hcount : middle.length = count) :
    Bytes.slice offset count (front ++ (middle ++ back)) = middle := by
  rw [Bytes.slice, List.drop_left' hoffset, List.take_left' hcount]

/-! ## The stored form of records -/

/-- Numbers of four bytes are read back. -/
theorem Bytes.toNat_ofNat_four {n : Nat} (hn : n < UInt32.size) :
    Bytes.toNat (Bytes.ofNat 4 n) = n :=
  Bytes.toNat_ofNat 4 n hn

/-- Numbers of eight bytes are read back. -/
theorem Bytes.toNat_ofNat_eight {n : Nat} (hn : n < UInt64.size) :
    Bytes.toNat (Bytes.ofNat 8 n) = n :=
  Bytes.toNat_ofNat 8 n hn

theorem takeImage?_encodeImage {image : Bytes} (himage : image.length < UInt32.size)
    (rest : Bytes) : takeImage? (encodeImage image ++ rest) = some (image, rest) := by
  have hlength : (Bytes.ofNat 4 image.length).length = 4 := Bytes.length_ofNat 4 _
  rw [encodeImage, List.append_assoc, takeImage?, List.take_left' hlength, List.drop_left' hlength,
    Bytes.toNat_ofNat_four himage]
  simp

namespace LogRecord

/-- The images of a record have lengths of 32 bits. -/
def Storable : LogRecord → Prop
  | .update _ before after => before.length < UInt32.size ∧ after.length < UInt32.size
  | .commit => True
  | .abort => True

theorem storable_of_length {record : LogRecord} (hlength : record.encode.length < UInt32.size) :
    record.Storable := by
  cases record with
  | commit => trivial
  | abort => trivial
  | update page before after =>
    simp only [encode, encodeImage, List.length_append, List.length_cons, Bytes.length_ofNat]
      at hlength
    simp only [Storable]
    omega

/-- A record is read back from its stored form, whatever follows. -/
theorem decode?_encode {record : LogRecord} (hstorable : record.Storable) (rest : Bytes) :
    decode? (record.encode ++ rest) = some record := by
  cases record with
  | commit => rfl
  | abort => rfl
  | update page before after =>
    obtain ⟨hbefore, hafter⟩ := hstorable
    have hpieces : encode (.update page before after) ++ rest =
        1 :: (Bytes.ofNat 4 page.table.toNat ++ (Bytes.ofNat 4 page.number.toNat ++
          (encodeImage before ++ (encodeImage after ++ rest)))) := by
      simp [encode]
    have htable : (Bytes.ofNat 4 page.table.toNat).length = 4 := Bytes.length_ofNat 4 _
    have hnumber : (Bytes.ofNat 4 page.number.toNat).length = 4 := Bytes.length_ofNat 4 _
    have himages : (Bytes.ofNat 4 page.table.toNat ++ (Bytes.ofNat 4 page.number.toNat ++
        (encodeImage before ++ (encodeImage after ++ rest)))).drop 8 =
          encodeImage before ++ (encodeImage after ++ rest) := by
      rw [show 8 = 4 + 4 from rfl, ← List.drop_drop, List.drop_left' htable,
        List.drop_left' hnumber]
    have hlong : ¬ (Bytes.ofNat 4 page.table.toNat ++ (Bytes.ofNat 4 page.number.toNat ++
        (encodeImage before ++ (encodeImage after ++ rest)))).length < 12 := by
      simp only [encodeImage, List.length_append, Bytes.length_ofNat]
      omega
    rw [hpieces, decode?, if_pos rfl, if_neg hlong, List.take_left' htable,
      Bytes.slice_between _ htable hnumber, himages]
    simp [takeImage?_encodeImage hbefore, takeImage?_encodeImage hafter,
      Bytes.toNat_ofNat_four page.table.toNat_lt, Bytes.toNat_ofNat_four page.number.toNat_lt]

end LogRecord

/-! ## Headers -/

namespace LogHeader

/-- The stored form of a header. -/
def encode (header : LogHeader) : Bytes :=
  Bytes.ofNat 4 header.length ++ Bytes.ofNat 8 header.transaction.toNat ++
    Bytes.ofNat 8 header.previous ++ Bytes.ofNat 4 header.checksum.toNat

@[simp] theorem length_encode (header : LogHeader) : header.encode.length = logHeaderSize := by
  simp [encode, logHeaderSize]

theorem ofBytes_encode {header : LogHeader} (hlength : header.length < UInt32.size)
    (hprevious : header.previous < UInt64.size) : ofBytes header.encode = header := by
  have htransaction : Bytes.slice 4 8 header.encode = Bytes.ofNat 8 header.transaction.toNat := by
    simp only [encode, List.append_assoc]
    exact Bytes.slice_between _ (Bytes.length_ofNat ..) (Bytes.length_ofNat ..)
  have hchained : Bytes.slice 12 8 header.encode = Bytes.ofNat 8 header.previous := by
    rw [encode, List.append_assoc]
    exact Bytes.slice_between _ (by simp) (Bytes.length_ofNat ..)
  have hchecksum : Bytes.slice 20 4 header.encode = Bytes.ofNat 4 header.checksum.toNat := by
    rw [encode, ← List.append_nil (Bytes.ofNat 4 header.checksum.toNat)]
    exact Bytes.slice_between _ (by simp) (Bytes.length_ofNat ..)
  have hfront : header.encode.take 4 = Bytes.ofNat 4 header.length := by
    simp only [encode, List.append_assoc]
    exact List.take_left' (Bytes.length_ofNat ..)
  rw [ofBytes, hfront, htransaction, hchained, hchecksum, Bytes.toNat_ofNat_four hlength,
    Bytes.toNat_ofNat_eight hprevious, Bytes.toNat_ofNat_eight header.transaction.toNat_lt,
    Bytes.toNat_ofNat_four header.checksum.toNat_lt, UInt64.ofNat_toNat, UInt32.ofNat_toNat]

/-- The bytes that a header was read from are its stored form. -/
theorem encode_ofBytes {bytes : Bytes} (hlength : bytes.length = logHeaderSize) :
    (ofBytes bytes).encode = bytes := by
  have hnumber : ∀ offset count, offset + count ≤ logHeaderSize →
      Bytes.ofNat count (Bytes.toNat (Bytes.slice offset count bytes))
          = Bytes.slice offset count bytes ∧
        Bytes.toNat (Bytes.slice offset count bytes) < 256 ^ count := by
    intro offset count hinside
    have hcount : (Bytes.slice offset count bytes).length = count := by
      rw [Bytes.slice, List.length_take, List.length_drop]
      omega
    have hbytes := Bytes.ofNat_toNat (Bytes.slice offset count bytes)
    have hsmall := Bytes.toNat_lt (Bytes.slice offset count bytes)
    rw [hcount] at hbytes hsmall
    exact ⟨hbytes, hsmall⟩
  obtain ⟨hfront, -⟩ := hnumber 0 4 (by decide)
  obtain ⟨htransaction, hsmall⟩ := hnumber 4 8 (by decide)
  obtain ⟨hprevious, -⟩ := hnumber 12 8 (by decide)
  obtain ⟨hchecksum, hshort⟩ := hnumber 20 4 (by decide)
  have hjoin : ∀ offset count,
      bytes.take offset ++ Bytes.slice offset count bytes = bytes.take (offset + count) :=
    fun _ _ => List.take_add.symm
  rw [show Bytes.slice 0 4 bytes = bytes.take 4 from rfl] at hfront
  simp only [encode, ofBytes, UInt64.toNat_ofNat_of_lt' hsmall, UInt32.toNat_ofNat_of_lt' hshort,
    hfront, htransaction, hprevious, hchecksum]
  rw [hjoin 4 8, hjoin 12 8, hjoin 20 4]
  exact List.take_of_length_le (Nat.le_of_eq hlength)

/-- The numbers of a header that was read have room in its stored form. -/
theorem lt_of_ofBytes (bytes : Bytes) :
    (ofBytes bytes).length < UInt32.size ∧ (ofBytes bytes).previous < UInt64.size := by
  have hshort : ∀ (width : Nat) (piece : Bytes), piece.length ≤ width →
      Bytes.toNat piece < 256 ^ width := by
    intro width piece hpiece
    exact Nat.lt_of_lt_of_le (Bytes.toNat_lt piece) (Nat.pow_le_pow_right (by decide) hpiece)
  exact ⟨hshort 4 _ (List.length_take_le _ _), hshort 8 _ (List.length_take_le _ _)⟩

/-- A content that starts with a stored header shows this header. -/
theorem ofBytes_slice {header : LogHeader} (hlength : header.length < UInt32.size)
    (hprevious : header.previous < UInt64.size) {content : Content} {tail : Bytes}
    (hbytes : content.toBytes = header.encode ++ tail) :
    ofBytes (content.slice 0 logHeaderSize) = header := by
  rw [Content.slice_eq, hbytes, Bytes.slice, List.drop_zero,
    List.take_left' header.length_encode, ofBytes_encode hlength hprevious]

end LogHeader

/-! ## Frames -/

/-- A record as it stands in a log file: a transaction, the stored previous position, and a body,
which need not be the stored form of a record. -/
structure LogFrame where
  transaction : TransactionId
  previous : Nat
  body : Bytes
  deriving DecidableEq, Inhabited

namespace LogFrame

/-- The length of header and body. -/
def length (frame : LogFrame) : Nat :=
  logHeaderSize + frame.body.length

/-- The header that belongs to the body. -/
def header (frame : LogFrame) : LogHeader where
  length := frame.length
  transaction := frame.transaction
  previous := frame.previous
  checksum := LogHeader.checksumOf frame.length frame.transaction frame.previous frame.body

/-- The bytes of a frame. -/
def bytes (frame : LogFrame) : Bytes :=
  frame.header.encode ++ frame.body

/-- The header has room for the length and the previous position. -/
structure Fits (frame : LogFrame) : Prop where
  length : frame.length < UInt32.size
  previous : frame.previous < UInt64.size

/-- The position of the previous record, if there is one. -/
def previous? (frame : LogFrame) : Option Lsn :=
  if frame.previous = noPrevious then none else some frame.previous

@[simp] theorem length_bytes (frame : LogFrame) : frame.bytes.length = frame.length := by
  simp [bytes, length]

theorem logHeaderSize_le (frame : LogFrame) : logHeaderSize ≤ frame.length :=
  Nat.le_add_right ..

section

variable {frame : LogFrame} {content : Content} {tail : Bytes}

theorem ofBytes_slice (hfits : frame.Fits)
    (hbytes : content.toBytes = frame.header.encode ++ tail) :
    LogHeader.ofBytes (content.slice 0 logHeaderSize) = frame.header :=
  LogHeader.ofBytes_slice hfits.length hfits.previous hbytes

theorem body_header (hbytes : content.toBytes = frame.bytes ++ tail) :
    frame.header.body content = frame.body := by
  have hlength : frame.header.length - logHeaderSize = frame.body.length :=
    Nat.add_sub_cancel_left ..
  rw [LogHeader.body, hlength, Content.slice_eq, hbytes, bytes, List.append_assoc]
  exact Bytes.slice_between _ frame.header.length_encode rfl

theorem matchesBody (hbytes : content.toBytes = frame.bytes ++ tail) :
    frame.header.matchesBody content = true := by
  rw [LogHeader.matchesBody, body_header hbytes]
  exact decide_eq_true rfl

theorem size_content (hbytes : content.toBytes = frame.bytes ++ tail) :
    content.size = frame.length + tail.length := by
  rw [Content.size_eq_length, hbytes, List.length_append, length_bytes]

/-- A frame at the front of a content is a sound record. -/
theorem head_eq_record (hfits : frame.Fits) (hbytes : content.toBytes = frame.bytes ++ tail) :
    LogHead.ofContent content = .record frame.transaction frame.length := by
  have hheader : LogHeader.ofBytes (content.slice 0 logHeaderSize) = frame.header :=
    ofBytes_slice hfits (by rw [hbytes, bytes, List.append_assoc])
  have hsize := size_content hbytes
  have hleast := frame.logHeaderSize_le
  have hlength : frame.header.length = frame.length := rfl
  have hnonempty : ¬ content.size = 0 := by
    simp only [logHeaderSize] at hleast
    omega
  have hheaded : ¬ content.size < logHeaderSize := by omega
  have hinside : (frame.header.length < logHeaderSize || content.size < frame.header.length)
      = false := by
    simp only [hlength, Bool.or_eq_false_iff, decide_eq_false_iff_not]
    omega
  simp only [LogHead.ofContent, hheader, if_neg hnonempty, if_neg hheaded, hinside,
    matchesBody hbytes, Bool.false_eq_true, if_false, if_true]
  rfl

/-- A frame whose body is a record is read in full. -/
theorem readFrame_eq (hfits : frame.Fits) (hbytes : content.toBytes = frame.bytes ++ tail)
    {record : LogRecord} (hdecode : LogRecord.decode? frame.body = some record) (lsn : Lsn) :
    readFrame lsn content =
      .ok (⟨lsn, frame.transaction, frame.previous?, record⟩, frame.length) := by
  have hheader : LogHeader.ofBytes (content.slice 0 logHeaderSize) = frame.header :=
    ofBytes_slice hfits (by rw [hbytes, bytes, List.append_assoc])
  have hsize := size_content hbytes
  have hleast := frame.logHeaderSize_le
  have hlength : frame.header.length = frame.length := rfl
  have hheaded : ¬ content.size < logHeaderSize := by omega
  have hlong : ¬ frame.header.length < logHeaderSize := by omega
  have hinside : ¬ content.size < frame.header.length := by omega
  simp only [readFrame, hheader, if_neg hheaded, if_neg hlong, if_neg hinside,
    matchesBody hbytes, body_header hbytes, hdecode]
  rfl

/-- A frame of which some bytes at the end are missing is no record, and it is not taken for
damage. -/
theorem head_of_cut (hfits : frame.Fits) {count : Nat} (hcount : count < frame.length)
    (hbytes : content.toBytes = frame.bytes.take count) :
    LogHead.ofContent content = .done ∨ LogHead.ofContent content = .torn := by
  have hsize : content.size = count := by
    rw [Content.size_eq_length, hbytes, List.length_take, length_bytes]
    omega
  by_cases hnone : count = 0
  · exact .inl (by simp [LogHead.ofContent, hsize, hnone])
  · right
    by_cases hshort : count < logHeaderSize
    · simp [LogHead.ofContent, hsize, hnone, hshort]
    · -- The header is there in full, so its length shows that something is missing.
      have hheader : LogHeader.ofBytes (content.slice 0 logHeaderSize) = frame.header := by
        have hfront : content.toBytes =
            frame.header.encode ++ frame.body.take (count - logHeaderSize) := by
          rw [hbytes, bytes, List.take_append, frame.header.length_encode,
            List.take_of_length_le (by rw [frame.header.length_encode]; omega)]
        exact ofBytes_slice hfits hfront
      have hlength : frame.header.length = frame.length := rfl
      simp [LogHead.ofContent, hsize, hnone, hshort, hheader, hlength, hcount]

end

/-- The header of a sound record has its length and the checksum of its body. -/
theorem header_of_head {content : Content} {transaction : TransactionId} {length : Nat}
    (hhead : LogHead.ofContent content = .record transaction length) :
    let header := LogHeader.ofBytes (content.slice 0 logHeaderSize)
    header.length = length ∧ header.matchesBody content = true := by
  simp only [LogHead.ofContent] at hhead
  split at hhead
  · exact absurd hhead (by simp)
  · split at hhead
    · exact absurd hhead (by simp)
    · split at hhead
      · exact absurd hhead (by simp)
      · split at hhead
        · rename_i hmatches
          exact ⟨(LogHead.record.inj hhead).2, hmatches⟩
        · split at hhead
          · exact absurd hhead (by simp)
          · exact absurd hhead (by simp)

/-- A sound record at the front of a content is a frame that fits. -/
theorem of_head {content : Content} {transaction : TransactionId} {length : Nat}
    (hhead : LogHead.ofContent content = .record transaction length) :
    ∃ frame : LogFrame, frame.Fits ∧ frame.length = length ∧
      content.toBytes = frame.bytes ++ content.toBytes.drop length := by
  obtain ⟨hleast, hinside⟩ := LogHead.length_of_record hhead
  obtain ⟨hlength, hmatches⟩ := header_of_head hhead
  have hheaded : (content.slice 0 logHeaderSize).length = logHeaderSize := by
    rw [Content.slice_eq, Bytes.slice, List.drop_zero, List.length_take, ← Content.size_eq_length]
    omega
  have hencode := LogHeader.encode_ofBytes hheaded
  have hroom := LogHeader.lt_of_ofBytes (content.slice 0 logHeaderSize)
  generalize LogHeader.ofBytes (content.slice 0 logHeaderSize) = header
    at hlength hmatches hencode hroom
  have hbody : (header.body content).length = length - logHeaderSize := by
    rw [LogHeader.body, hlength, Content.slice_eq, Bytes.slice, List.length_take,
      List.length_drop, ← Content.size_eq_length]
    omega
  let frame : LogFrame := ⟨header.transaction, header.previous, header.body content⟩
  have hframe : frame.length = length := by
    rw [LogFrame.length, hbody]
    omega
  -- the checksum that was read is the one that the frame has
  have hheader : frame.header = header := by
    rw [LogFrame.header, hframe, ← hlength, of_decide_eq_true hmatches]
  refine ⟨frame, ⟨?_, hroom.2⟩, hframe, ?_⟩
  · rw [hframe, ← hlength]
    exact hroom.1
  · have hfront : frame.bytes = content.toBytes.take length := by
      rw [LogFrame.bytes, hheader, hencode]
      show content.slice 0 logHeaderSize ++ header.body content = _
      rw [LogHeader.body, hlength, Content.slice_eq, Content.slice_eq, Bytes.slice, Bytes.slice,
        List.drop_zero, ← List.take_add, Nat.add_sub_cancel' hleast]
    rw [hfront, List.take_append_drop]

end LogFrame

/-! ## Entries -/

namespace LogEntry

/-- The frame in which a record is written. -/
def frame (entry : LogEntry) : LogFrame where
  transaction := entry.transaction
  previous := entry.previous.getD noPrevious
  body := entry.record.encode

/-- The length of the record in the log file. -/
def length (entry : LogEntry) : Nat :=
  entry.frame.length

/-- Where the record ends in the log file. -/
def stop (entry : LogEntry) : Nat :=
  entry.lsn + entry.length

theorem lsn_lt_stop (entry : LogEntry) : entry.lsn < entry.stop := by
  apply Nat.lt_add_of_pos_right
  exact Nat.lt_of_lt_of_le (by decide) entry.frame.logHeaderSize_le

/-- The record and its previous position have room in a frame. -/
structure Fits (entry : LogEntry) : Prop where
  length : entry.length < UInt32.size
  previous : ∀ lsn, entry.previous = some lsn → lsn < noPrevious

variable {entry : LogEntry}

theorem Fits.frame (hfits : entry.Fits) : entry.frame.Fits where
  length := hfits.length
  previous := by
    have hnone : noPrevious < UInt64.size := by decide
    show entry.previous.getD noPrevious < UInt64.size
    cases hprevious : entry.previous with
    | none => exact hnone
    | some lsn => exact Nat.lt_trans (hfits.previous lsn hprevious) hnone

/-- What is written for a record is its frame. -/
theorem encodeFrame_eq (hlength : entry.length < UInt32.size) :
    encodeFrame entry.transaction entry.previous entry.record = entry.frame.bytes := by
  have hmod : (logHeaderSize + entry.record.encode.length) % UInt32.size
      = logHeaderSize + entry.record.encode.length := Nat.mod_eq_of_lt hlength
  simp only [encodeFrame, hmod]
  rfl

/-- A record at the front of a content is read back with its place and its previous position. -/
theorem readFrame_eq (hfits : entry.Fits) {content : Content} {tail : Bytes}
    (hbytes : content.toBytes = entry.frame.bytes ++ tail) :
    readFrame entry.lsn content = .ok (entry, entry.length) := by
  have hdecode : LogRecord.decode? entry.frame.body = some entry.record := by
    have hshort := hfits.length
    rw [LogEntry.length, LogFrame.length] at hshort
    have hstorable : entry.record.Storable :=
      LogRecord.storable_of_length (Nat.lt_of_le_of_lt (Nat.le_add_left ..) hshort)
    rw [LogEntry.frame, ← List.append_nil entry.record.encode]
    exact LogRecord.decode?_encode hstorable []
  have hprevious : entry.frame.previous? = entry.previous := by
    show (if entry.previous.getD noPrevious = noPrevious then none
      else some (entry.previous.getD noPrevious)) = entry.previous
    cases hchained : entry.previous with
    | none => rfl
    | some lsn => simp [Nat.ne_of_lt (hfits.previous lsn hchained)]
  rw [LogFrame.readFrame_eq hfits.frame hbytes hdecode entry.lsn, hprevious]
  rfl

end LogEntry

end HeapStore
