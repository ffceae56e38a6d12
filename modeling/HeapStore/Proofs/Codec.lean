import HeapStore.Proofs.Frame
import HeapStore.Proofs.Reader

/-!
# The stored form of records

A record is read from bytes exactly if these bytes start with its stored form and its images have
lengths of 32 bits (`LogRecord.decode?_eq_some_iff`).  Bytes that start with no stored form give
none: those with an unknown tag, those cut off anywhere, and those with an image whose length leads
past their end.

`LogRecord.decode?` takes the bytes that are there, also where these are fewer than it asks for.
`readRecord` takes the same steps along the bytes and fails where a step asks for more bytes than
are left.  No step does, and the last one stops right behind the record (`readRecord_eq`).
-/

namespace HeapStore

/-- A number is read back from as many of its digits as are stored. -/
theorem Bytes.toNat_ofNat_mod (width n : Nat) : toNat (ofNat width n) = n % 256 ^ width := by
  induction width generalizing n with
  | zero => simp [ofNat, toNat, Nat.mod_one]
  | succ width ih =>
      have hlast : (UInt8.ofNat n).toNat = n % 256 := by simp
      rw [ofNat, toNat_concat, ih, hlast, Nat.pow_succ, Nat.mul_comm (256 ^ width) 256,
        Nat.mod_mul]
      omega

/-! ## Reading along the bytes -/

/-- Takes an image with its length off the front, if both are there. -/
def readImage (bytes : Bytes) : Except Overrun (Option (Bytes × Bytes)) := do
  if bytes.length < 4 then return none
  let (length, rest) ← readNumber bytes
  if rest.length < length.toNat then return none
  let (image, rest) ← takeExactly length.toNat rest
  return some (image, rest)

/-- Takes a record off the front, if it is there.  That there are twelve bytes behind the tag of an
update is looked at once, for the address and the length of the first image. -/
def readRecord (bytes : Bytes) : Except Overrun (Option (LogRecord × Bytes)) := do
  if bytes.length = 0 then return none
  let (tag, rest) ← takeExactly 1 bytes
  if tag = [1] then
    if rest.length < 12 then return none
    let (table, rest) ← readNumber rest
    let (number, rest) ← readNumber rest
    match ← readImage rest with
    | none => return none
    | some (before, rest) =>
      match ← readImage rest with
      | none => return none
      | some (after, rest) => return some (.update ⟨table, number⟩ before after, rest)
  else if tag = [2] then return some (.commit, rest)
  else if tag = [3] then return some (.abort, rest)
  else return none

section

variable {bytes : Bytes}

/-- An image is taken only where it is there. -/
theorem readImage_eq (bytes : Bytes) : readImage bytes = .ok (takeImage? bytes) := by
  unfold readImage takeImage?
  split
  · rfl
  · rename_i hlong
    have hdigits : (bytes.take 4).length = 4 := by
      rw [List.length_take]
      omega
    have hnumber := (Bytes.ofNat_toNat_four hdigits).1
    simp only [readNumber_of_le (Nat.le_of_not_lt hlong), bind, Except.bind, hnumber]
    split
    · rfl
    · rename_i hinside
      rw [takeExactly_of_le (Nat.le_of_not_lt hinside)]
      rfl

/-- The tag says what has to follow, and all of it is taken only where it is there. -/
theorem readRecord_cons (tag : UInt8) (rest : Bytes) :
    readRecord (tag :: rest) =
      if tag = 1 then
        if rest.length < 12 then .ok none
        else .ok ((takeImage? (rest.drop 8)).bind fun before =>
          (takeImage? before.2).map fun after =>
            (.update ⟨UInt32.ofNat (Bytes.toNat (rest.take 4)),
              UInt32.ofNat (Bytes.toNat (Bytes.slice 4 4 rest))⟩ before.1 after.1, after.2))
      else if tag = 2 then .ok (some (.commit, rest))
      else if tag = 3 then .ok (some (.abort, rest))
      else .ok none := by
  have htag : takeExactly 1 (tag :: rest) = .ok ([tag], rest) := takeExactly_of_le (by simp)
  unfold readRecord
  simp only [List.length_cons, Nat.add_one_ne_zero, if_false, htag, List.cons.injEq, and_true, bind,
    Except.bind, pure, Except.pure]
  split
  · split
    · rfl
    · rename_i hlong
      have hfirst : 4 ≤ rest.length := by omega
      have hsecond : 4 ≤ (rest.drop 4).length := by
        rw [List.length_drop]
        omega
      simp only [readNumber_of_le hfirst, readNumber_of_le hsecond, readImage_eq, List.drop_drop,
        Bytes.slice]
      cases takeImage? (rest.drop 8) with
      | none => rfl
      | some before =>
          simp only [Option.bind_some]
          cases takeImage? before.2 with
          | none => rfl
          | some after => rfl
  · rfl

end

/-! ## Images -/

/-- An image that was taken off stood there with its length in front. -/
theorem of_takeImage? {bytes image rest : Bytes} (htake : takeImage? bytes = some (image, rest)) :
    image.length < UInt32.size ∧ bytes = encodeImage image ++ rest := by
  unfold takeImage? at htake
  split at htake
  · exact absurd htake (by simp)
  · rename_i hlong
    simp only at htake
    split at htake
    · exact absurd htake (by simp)
    · rename_i hinside
      obtain ⟨rfl, rfl⟩ := Prod.mk.inj (Option.some.inj htake)
      have hdigits : (bytes.take 4).length = 4 := by
        rw [List.length_take]
        omega
      have hlength : ((bytes.drop 4).take (Bytes.toNat (bytes.take 4))).length
          = Bytes.toNat (bytes.take 4) := by
        rw [List.length_take]
        omega
      obtain ⟨hnumber, hfront⟩ := Bytes.ofNat_toNat_four hdigits
      rw [hnumber] at hfront
      refine ⟨?_, ?_⟩
      · rw [hlength, ← hnumber]
        exact UInt32.toNat_lt_size _
      · rw [encodeImage, hlength, hfront, List.append_assoc, List.take_append_drop,
          List.take_append_drop]

/-! ## Records -/

namespace LogRecord

variable {bytes rest : Bytes} {record other : LogRecord}

/-- The reader along the bytes finds what `decode?` finds. -/
theorem decode?_of_readRecord (bytes : Bytes) :
    (readRecord bytes).map (Option.map Prod.fst) = .ok (decode? bytes) := by
  cases bytes with
  | nil => rfl
  | cons tag rest =>
      rw [readRecord_cons, decode?]
      split
      · split
        · rfl
        · simp only [bind, pure]
          cases takeImage? (rest.drop 8) with
          | none => rfl
          | some before =>
              simp only [Option.bind_some]
              cases takeImage? before.2 with
              | none => rfl
              | some after => rfl
      · split
        · rfl
        · split <;> rfl

/-- A record that was read stands at the front of the bytes, and what is left stands behind it. -/
theorem of_readRecord (hread : readRecord bytes = .ok (some (record, rest))) :
    record.Storable ∧ bytes = record.encode ++ rest := by
  cases bytes with
  | nil => exact absurd hread (by simp [readRecord, pure, Except.pure])
  | cons tag behind =>
      rw [readRecord_cons] at hread
      split at hread
      · rename_i htag
        split at hread
        · exact absurd hread (by simp)
        · rename_i hlong
          simp only [Except.ok.injEq, Option.bind_eq_some_iff, Option.map_eq_some_iff, Prod.exists,
            Prod.mk.injEq] at hread
          obtain ⟨before, middle, hbefore, after, last, hafter, rfl, rfl⟩ := hread
          obtain ⟨hbeforeShort, hmiddle⟩ := of_takeImage? hbefore
          obtain ⟨hafterShort, hlast⟩ := of_takeImage? hafter
          have htable : (behind.take 4).length = 4 := by
            rw [List.length_take]
            omega
          have hnumber : (Bytes.slice 4 4 behind).length = 4 := by
            rw [Bytes.slice, List.length_take, List.length_drop]
            omega
          -- the address is cut off the front, and what is behind it are the two images
          have hsplit : behind = behind.take 4 ++ (Bytes.slice 4 4 behind ++ behind.drop 8) := by
            rw [Bytes.slice, show 8 = 4 + 4 from rfl, ← List.drop_drop, List.take_append_drop,
              List.take_append_drop]
          refine ⟨⟨hbeforeShort, hafterShort⟩, ?_⟩
          simp only [encode, (Bytes.ofNat_toNat_four htable).2, (Bytes.ofNat_toNat_four hnumber).2,
            htag, List.cons_append, List.append_assoc]
          rw [← hlast, ← hmiddle, ← hsplit]
      · split at hread
        · rename_i htag
          obtain ⟨rfl, rfl⟩ := Prod.mk.inj (Option.some.inj (Except.ok.inj hread))
          exact ⟨trivial, by rw [htag]; rfl⟩
        · split at hread
          · rename_i htag
            obtain ⟨rfl, rfl⟩ := Prod.mk.inj (Option.some.inj (Except.ok.inj hread))
            exact ⟨trivial, by rw [htag]; rfl⟩
          · exact absurd hread (by simp)

/-- What `decode?` finds the reader along the bytes finds, and it stops right behind it. -/
theorem readRecord_eq (bytes : Bytes) :
    readRecord bytes =
      .ok ((decode? bytes).map fun record => (record, bytes.drop record.encode.length)) := by
  have hfound := decode?_of_readRecord bytes
  cases hread : readRecord bytes with
  | error overrun => simp [hread, Except.map] at hfound
  | ok found =>
      rw [hread] at hfound
      rw [← Except.ok.inj hfound]
      cases found with
      | none => rfl
      | some result =>
          obtain ⟨record, rest⟩ := result
          obtain ⟨-, rfl⟩ := of_readRecord hread
          simp

theorem decode?_eq_some_iff :
    decode? bytes = some record ↔ record.Storable ∧ record.encode <+: bytes := by
  constructor
  · intro hdecode
    have hread := readRecord_eq bytes
    rw [hdecode] at hread
    obtain ⟨hstorable, hbytes⟩ := of_readRecord hread
    exact ⟨hstorable, _, hbytes.symm⟩
  · rintro ⟨hstorable, rest, rfl⟩
    exact decode?_encode hstorable rest

/-- The images stand behind the tag and the address. -/
theorem drop_encode_update (page : PageAddress) (before after rest : Bytes) :
    (encode (.update page before after) ++ rest).drop 9
      = encodeImage before ++ (encodeImage after ++ rest) := by
  have hsplit : encode (.update page before after) ++ rest =
      (1 :: (Bytes.ofNat 4 page.table.toNat ++ Bytes.ofNat 4 page.number.toNat)) ++
        (encodeImage before ++ (encodeImage after ++ rest)) := by
    simp [encode]
  rw [hsplit]
  exact List.drop_left' (by simp)

/-- The stored form of a record with short images starts with that of no record with an image that
is too long: such a length is stored modulo 2^32, and the images behind it take more bytes than the
lengths in front of them say. -/
theorem storable_of_front (hother : other.Storable) (hbegins : record.encode <+: other.encode) :
    record.Storable := by
  obtain ⟨tail, hbytes⟩ := hbegins
  cases record with
  | commit => trivial
  | abort => trivial
  | update page before after =>
      cases other with
      | commit => simp [encode] at hbytes
      | abort => simp [encode] at hbytes
      | update place former latter =>
          obtain ⟨hformer, hlatter⟩ := hother
          have himages : encodeImage before ++ (encodeImage after ++ tail)
              = encodeImage former ++ encodeImage latter := by
            have hdrop := congrArg (List.drop 9) hbytes
            rwa [drop_encode_update, ← List.append_nil (encode (.update place former latter)),
              drop_encode_update, List.append_nil] at hdrop
          have hlengths := congrArg List.length himages
          have hfront := congrArg (Bytes.toNat ∘ List.take 4) himages
          simp only [encodeImage, List.append_assoc, List.length_append, Bytes.length_ofNat]
            at hlengths
          simp only [encodeImage, List.append_assoc, Function.comp_apply,
            List.take_left' (Bytes.length_ofNat 4 _), Bytes.toNat_ofNat_mod] at hfront
          have hsize : UInt32.size = 256 ^ 4 := rfl
          simp only [Storable]
          omega

theorem eq_of_front (hother : other.Storable) (hbegins : record.encode <+: other.encode) :
    record = other := by
  have hfront := decode?_eq_some_iff.mpr ⟨storable_of_front hother hbegins, hbegins⟩
  have hwhole := decode?_eq_some_iff.mpr ⟨hother, List.prefix_refl other.encode⟩
  exact Option.some.inj (hfront.symm.trans hwhole)

/-- Reading and storing are each other's inverse.  A record is read exactly if its images have
lengths of 32 bits and its stored form stands at the front; it is then read back whatever follows,
and no stored form is a proper part of the front of another one.  Bytes with nothing stored at their
front give none, and no byte is asked for that is not there. -/
theorem codec_exact (bytes : Bytes) (record : LogRecord) :
    (decode? bytes = some record ↔ record.Storable ∧ record.encode <+: bytes) ∧
      (decode? (record.encode ++ bytes) = some record ↔ record.Storable) ∧
      (record.Storable → ∀ other : LogRecord, other.encode <+: record.encode → other = record) ∧
      (decode? bytes = none ↔ ∀ other : LogRecord, other.Storable → ¬ other.encode <+: bytes) ∧
      readRecord bytes =
        .ok ((decode? bytes).map fun found => (found, bytes.drop found.encode.length)) := by
  refine ⟨decode?_eq_some_iff, ?_, fun hstorable other => eq_of_front hstorable, ?_,
    readRecord_eq bytes⟩
  · rw [decode?_eq_some_iff, and_iff_left (List.prefix_append record.encode bytes)]
  · rw [Option.eq_none_iff_forall_ne_some]
    exact forall_congr' fun other => by rw [ne_eq, decode?_eq_some_iff, not_and]

/-- An update with an empty image, whose last byte may be missing. -/
theorem codec_exact_update :
    let record : LogRecord := .update ⟨5, 0⟩ [7] []
    record.Storable ∧ decode? (record.encode ++ [9]) = some record ∧
      (∀ other : LogRecord, other.encode <+: record.encode → other = record) ∧
      decode? record.encode.dropLast = none := by
  intro record
  have hstorable : record.Storable := ⟨by decide, by decide⟩
  obtain ⟨-, hback, hfront, -, -⟩ := codec_exact [9] record
  exact ⟨hstorable, hback.mpr hstorable, hfront hstorable, by decide⟩

end LogRecord

end HeapStore
