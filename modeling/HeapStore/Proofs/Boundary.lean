import HeapStore.Proofs.Row

/-!
# Texts cut between characters

A cell holds the longest run of whole characters that fits it.  `fittingChars` finds it from the
front, character by character.  It can also be found in the bytes of the text: from the end of the
cell backwards to the first byte that starts a character.  `Text.search_eq` says that both give the
same cut.

The bytes of a character are one that starts it and at most three that do not, so the positions
between characters are told by single bytes (`Text.isBoundary_iff`) and the search takes at most
three steps.  A text that was cut is not cut again.
-/

namespace HeapStore

/-! ## The longest run of characters -/

section

variable {room : Nat} {chars front : List Char}

theorem fittingChars_isPrefix (room : Nat) (chars : List Char) :
    fittingChars room chars <+: chars := by
  induction chars generalizing room with
  | nil => exact List.nil_prefix
  | cons c chars ih =>
      unfold fittingChars
      split
      · exact (List.cons_prefix_cons).mpr ⟨rfl, ih _⟩
      · exact List.nil_prefix

/-- Every run of characters that fits is a front of the one that is taken. -/
theorem isPrefix_fittingChars (hfront : front <+: chars)
    (hfits : (front.map Char.utf8Size).sum ≤ room) : front <+: fittingChars room chars := by
  induction chars generalizing room front with
  | nil => exact hfront
  | cons c chars ih =>
      obtain rfl | ⟨others, rfl, hothers⟩ := List.prefix_cons_iff.mp hfront
      · exact List.nil_prefix
      · rw [List.map_cons, List.sum_cons] at hfits
        rw [fittingChars, if_pos (by omega)]
        exact (List.cons_prefix_cons).mpr ⟨rfl, ih hothers (by omega)⟩

/-- What is left free is less than a character takes. -/
theorem room_le_of_cut (hcut : room < (chars.map Char.utf8Size).sum) :
    room ≤ ((fittingChars room chars).map Char.utf8Size).sum + 3 := by
  induction chars generalizing room with
  | nil => exact absurd hcut (Nat.not_lt_zero _)
  | cons c chars ih =>
      rw [List.map_cons, List.sum_cons] at hcut
      unfold fittingChars
      split
      · rename_i hfits
        have hrest := @ih (room - c.utf8Size) (by omega)
        rw [List.map_cons, List.sum_cons]
        omega
      · have hwidth := c.utf8Size_le_four
        omega

end

/-! ## Positions between characters -/

namespace Text

/-- A byte with which a character starts: none of `0x80` to `0xBF`. -/
def startsChar (byte : UInt8) : Bool :=
  byte < 0x80 || 0xC0 ≤ byte

/-- A position between two characters, or at an end of the text. -/
def isBoundary (bytes : Bytes) (position : Nat) : Bool :=
  if position = 0 then true
  else
    match bytes[position]? with
    | none => position = bytes.length
    | some byte => startsChar byte

/-- The first position between characters from this one on backwards; none if the search comes to
the front of the text. -/
def search (bytes : Bytes) : (position : Nat) → Option Nat
  | 0 => none
  | position + 1 =>
    if isBoundary bytes (position + 1) then some (position + 1) else search bytes position

/-- How many of the bytes of a text a cell takes. -/
def storedLength? (bytes : Bytes) : Option Nat :=
  if bytes.length ≤ textCapacity then some bytes.length else search bytes textCapacity

theorem utf8_ofList (chars : List Char) :
    utf8 (String.ofList chars) = chars.flatMap String.utf8EncodeChar := by
  rw [utf8, String.toByteArray_ofList]
  simp [List.utf8Encode]

/-- The first byte of a character starts it, and the others do not. -/
theorem bytes_of_char (c : Char) :
    ∃ first others, String.utf8EncodeChar c = first :: others ∧
      others.length + 1 = c.utf8Size ∧ startsChar first = true ∧
      ∀ byte ∈ others, startsChar byte = false := by
  have hstarts : ∀ byte : UInt8, byte.IsUTF8FirstByte → startsChar byte = true := by
    have hevery : ∀ n : Fin 256, (UInt8.ofNat n.val).IsUTF8FirstByte →
        startsChar (UInt8.ofNat n.val) = true := by
      decide +kernel
    intro byte hbyte
    simpa using hevery ⟨byte.toNat, byte.toNat_lt⟩ (by simpa using hbyte)
  have hcontinues : ∀ n : Nat, startsChar (UInt8.ofNat (n % 64) + 128) = false := by
    have hevery : ∀ n : Fin 64, startsChar (UInt8.ofNat n.val + 128) = false := by decide
    exact fun n => hevery ⟨n % 64, Nat.mod_lt _ (by decide)⟩
  have hothers : ∀ byte ∈ (String.utf8EncodeChar c).tail, startsChar byte = false := by
    rw [String.utf8EncodeChar]
    split
    · simp
    · split
      · simp [hcontinues]
      · split <;> simp [hcontinues]
  have hfirst := hstarts _ (UInt8.isUTF8FirstByte_getElem_zero_utf8EncodeChar (c := c))
  have hlength := String.length_utf8EncodeChar c
  cases hbytes : String.utf8EncodeChar c with
  | nil => exact absurd hbytes String.utf8EncodeChar_ne_nil
  | cons first others =>
      simp only [hbytes] at hothers hfirst hlength
      exact ⟨first, others, rfl, hlength, hfirst, hothers⟩

/-- No position within a character is one between characters. -/
theorem isBoundary_inside (c : Char) (rest : Bytes) {position : Nat} (hpos : 0 < position)
    (hinside : position < c.utf8Size) :
    isBoundary (String.utf8EncodeChar c ++ rest) position = false := by
  obtain ⟨first, others, hbytes, hlength, -, hothers⟩ := bytes_of_char c
  obtain ⟨before, rfl⟩ := Nat.exists_eq_succ_of_ne_zero (Nat.ne_of_gt hpos)
  have hbefore : before < others.length := by omega
  simp [isBoundary, hbytes, List.getElem?_append_left hbefore, hbefore,
    hothers _ (List.getElem_mem hbefore)]

/-- Behind a character the positions are those of the characters that follow. -/
theorem isBoundary_behind (c : Char) (chars : List Char) (position : Nat) :
    isBoundary (String.utf8EncodeChar c ++ chars.flatMap String.utf8EncodeChar)
        (c.utf8Size + position) =
      isBoundary (chars.flatMap String.utf8EncodeChar) position := by
  have hwidth := String.length_utf8EncodeChar c
  have hpos := c.utf8Size_pos
  have hbyte : (String.utf8EncodeChar c ++ chars.flatMap String.utf8EncodeChar)[
      c.utf8Size + position]? = (chars.flatMap String.utf8EncodeChar)[position]? := by
    rw [List.getElem?_append_right (by omega), hwidth, Nat.add_sub_cancel_left]
  rw [isBoundary, if_neg (by omega), hbyte, List.length_append, hwidth]
  by_cases hfront : position = 0
  · subst hfront
    cases chars with
    | nil => simp [isBoundary]
    | cons next chars =>
        obtain ⟨first, others, hbytes, -, hfirst, -⟩ := bytes_of_char next
        simp [isBoundary, hbytes, hfirst]
  · simp [isBoundary, hfront]

/-- The positions between characters are the ends of the fronts of a text. -/
theorem isBoundary_iff {chars : List Char} {position : Nat} :
    isBoundary (chars.flatMap String.utf8EncodeChar) position = true ↔
      ∃ front, front <+: chars ∧ (front.map Char.utf8Size).sum = position := by
  induction chars generalizing position with
  | nil =>
      simp [isBoundary, List.prefix_nil, eq_comm]
  | cons c chars ih =>
      rw [List.flatMap_cons]
      constructor
      · intro hboundary
        by_cases hfront : position = 0
        · exact ⟨[], List.nil_prefix, hfront.symm⟩
        · by_cases hinside : position < c.utf8Size
          · rw [isBoundary_inside c _ (Nat.pos_of_ne_zero hfront) hinside] at hboundary
            exact absurd hboundary Bool.false_ne_true
          · obtain ⟨later, rfl⟩ := Nat.exists_eq_add_of_le (Nat.not_lt.mp hinside)
            rw [isBoundary_behind] at hboundary
            obtain ⟨front, hprefix, hsum⟩ := ih.mp hboundary
            exact ⟨c :: front, List.cons_prefix_cons.mpr ⟨rfl, hprefix⟩, by simp [hsum]⟩
      · rintro ⟨front, hprefix, rfl⟩
        obtain rfl | ⟨others, rfl, hothers⟩ := List.prefix_cons_iff.mp hprefix
        · rfl
        · rw [List.map_cons, List.sum_cons, isBoundary_behind]
          exact ih.mpr ⟨others, hothers, rfl⟩

/-! ## The search for a boundary -/

/-- The search finds the last position between characters that is not behind its start. -/
theorem search_eq_some_iff {bytes : Bytes} {position found : Nat} :
    search bytes position = some found ↔
      0 < found ∧ found ≤ position ∧ isBoundary bytes found = true ∧
        ∀ later, found < later → later ≤ position → isBoundary bytes later = false := by
  induction position with
  | zero =>
      simp only [search]
      constructor
      · simp
      · rintro ⟨hpos, hle, -⟩
        omega
  | succ position ih =>
      rw [search]
      split
      · rename_i hboundary
        constructor
        · rintro ⟨⟩
          exact ⟨Nat.succ_pos _, Nat.le_refl _, hboundary, fun later _ _ => by omega⟩
        · rintro ⟨-, hle, -, hlater⟩
          -- Were the position found an earlier one, the start would be none between characters.
          by_contra hother
          have hbehind : found < position + 1 :=
            Nat.lt_of_le_of_ne hle fun hsame => hother (by rw [hsame])
          rw [hlater _ hbehind (Nat.le_refl _)] at hboundary
          exact Bool.false_ne_true hboundary
      · rename_i hinside
        rw [ih]
        constructor
        · rintro ⟨hpos, hle, hboundary, hlater⟩
          refine ⟨hpos, Nat.le_succ_of_le hle, hboundary, ?_⟩
          intro later hbehind hlast
          obtain rfl | hbefore := Nat.eq_or_lt_of_le hlast
          · simpa using hinside
          · exact hlater later hbehind (Nat.le_of_lt_succ hbefore)
        · rintro ⟨hpos, hle, hboundary, hlater⟩
          refine ⟨hpos, ?_, hboundary, fun later hbehind hlast => hlater later hbehind (by omega)⟩
          obtain rfl | hbefore := Nat.eq_or_lt_of_le hle
          · exact absurd hboundary hinside
          · exact Nat.le_of_lt_succ hbefore

/-- Of a text that does not fit, the search finds where the longest run of characters ends. -/
theorem search_eq {room : Nat} {chars : List Char} (hroom : 3 < room)
    (hcut : room < (chars.map Char.utf8Size).sum) :
    search (chars.flatMap String.utf8EncodeChar) room =
      some ((fittingChars room chars).map Char.utf8Size).sum := by
  have hkept := room_le_of_cut hcut
  rw [search_eq_some_iff]
  refine ⟨by omega, sum_fittingChars_le room chars,
    isBoundary_iff.mpr ⟨_, fittingChars_isPrefix room chars, rfl⟩, ?_⟩
  intro later hbehind hle
  by_contra hboundary
  obtain ⟨front, hfront, rfl⟩ := isBoundary_iff.mp (eq_true_of_ne_false hboundary)
  -- The characters before a later position would fit, and be more than the longest run.
  obtain ⟨others, hothers⟩ := isPrefix_fittingChars hfront hle
  rw [← hothers, List.map_append, List.sum_append] at hbehind
  omega

end Text

/-! ## Texts in cells -/

section

variable (s : String)

theorem sum_toList : (s.toList.map Char.utf8Size).sum = s.utf8ByteSize := by
  rw [← utf8ByteSize_ofList, String.ofList_toList]

/-- The length of the text in a cell is found by the search through its bytes. -/
theorem storedLength?_utf8 :
    Text.storedLength? (Text.utf8 s) = some (storedText s).utf8ByteSize := by
  rw [Text.storedLength?, Text.length_utf8]
  split
  · rename_i hfits
    rw [storedText_of_le hfits]
  · rename_i hcut
    have hbytes := Text.utf8_ofList s.toList
    rw [String.ofList_toList] at hbytes
    rw [hbytes, storedText, utf8ByteSize_ofList]
    exact Text.search_eq (by decide) (by rw [sum_toList]; omega)

/-- What a cell keeps of a text. -/
structure Kept (kept : String) : Prop where
  front : kept.toList <+: s.toList
  fits : kept.utf8ByteSize ≤ textCapacity
  longest : ∀ front : String, front.toList <+: s.toList → front.utf8ByteSize ≤ textCapacity →
    front.toList <+: kept.toList
  whole : s.utf8ByteSize ≤ textCapacity → kept = s
  filled : textCapacity < s.utf8ByteSize → 125 ≤ kept.utf8ByteSize
  bytes : Text.utf8 kept = (Text.utf8 s).take kept.utf8ByteSize

theorem kept_storedText : Kept s (storedText s) where
  front := by
    rw [storedText, String.toList_ofList]
    exact fittingChars_isPrefix _ _
  fits := by
    rw [← Text.length_utf8]
    exact length_utf8_storedText_le s
  longest front hfront hfits := by
    rw [storedText, String.toList_ofList]
    exact isPrefix_fittingChars hfront (by rw [sum_toList]; exact hfits)
  whole := storedText_of_le
  filled hcut := by
    rw [storedText, utf8ByteSize_ofList]
    have hkept := @room_le_of_cut textCapacity s.toList (by rwa [sum_toList])
    unfold textCapacity at hkept ⊢
    omega
  bytes := by
    obtain ⟨others, hothers⟩ := fittingChars_isPrefix textCapacity s.toList
    have hlength : (Text.utf8 (storedText s)).length = (storedText s).utf8ByteSize :=
      Text.length_utf8 _
    have hbytes := Text.utf8_ofList s.toList
    rw [String.ofList_toList, ← hothers, List.flatMap_append, ← Text.utf8_ofList] at hbytes
    rw [hbytes]
    exact (List.take_left' hlength).symm

end

/-- A text field holds the longest front of whole characters that a cell has room for.  The search
backwards through the bytes ends where it ends, before it comes to the front of the text, and
neither a second cut nor the one before the text is written takes anything away. -/
theorem Field.ofText_keeps_longest (s : String) :
    ∃ kept, Field.ofText s = .string kept ∧ Kept s kept ∧
      Text.storedLength? (Text.utf8 s) = some kept.utf8ByteSize ∧
      Field.ofText kept = .string kept ∧
      Text.storedLength? (Text.utf8 kept) = some kept.utf8ByteSize ∧
      (Field.string s).encode = (Field.string kept).encode ∧
      (Field.string kept).encode = Bytes.ofNat 4 kept.utf8ByteSize ++ Text.utf8 kept ++
        Bytes.zeros (textCapacity - kept.utf8ByteSize) := by
  refine ⟨storedText s, rfl, kept_storedText s, storedLength?_utf8 s, ?_, ?_, ?_, ?_⟩
  · rw [ofText, storedText_storedText]
  · rw [storedLength?_utf8, storedText_storedText]
  · simp only [encode, storedText_storedText]
  · simp only [encode, storedText_storedText, Text.length_utf8]

example :
    Text.search (Text.utf8 (String.ofList ('x' :: List.replicate 100 'é'))) 128 = some 127 := by
  decide +kernel

end HeapStore
