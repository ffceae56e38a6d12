import Mathlib.Data.List.TakeWhile
import HeapStore.Text.Blank
import HeapStore.Text.LowerCase

/-!
# Pieces, words and letter case

A text is its pieces with the separator between them (`pieces_eq_iff`), and its first word stands
behind blanks and in front of a blank or the end (`words_eq_cons_iff`).  Trimming gives the text
between the blanks at both ends.  A text whose lower-case form has ASCII letters only is spelled
with these letters in either case (`lower_eq_iff`); the k is left out, which is also the lower-case
form of the Kelvin sign.
-/

namespace HeapStore.Text

variable {cs gap word rest : List Char}

/-! ## Pieces -/

theorem pieces_eq_splitOnP (separates : Char → Bool) (cs : List Char) :
    pieces separates cs = cs.splitOnP separates := by
  induction cs with
  | nil => rfl
  | cons c rest ih =>
      rw [pieces, List.splitOnP_cons_eq_if_modifyHead, ih]
      split
      · rfl
      · cases hrest : rest.splitOnP separates with
        | nil => exact absurd hrest (List.splitOnP_ne_nil separates rest)
        | cons piece others => rfl

theorem pieces_eq_splitOn (separator : Char) (cs : List Char) :
    pieces (· = separator) cs = cs.splitOn separator := by
  rw [pieces_eq_splitOnP, List.splitOn_eq_splitOnP]
  rfl

theorem not_mem_of_mem_pieces {separator : Char} {piece : List Char}
    (hpiece : piece ∈ pieces (· = separator) cs) : separator ∉ piece := by
  induction cs generalizing piece with
  | nil =>
      obtain rfl : piece = [] := by simpa [pieces] using hpiece
      simp
  | cons c rest ih =>
      rw [pieces] at hpiece
      split at hpiece
      · rcases List.mem_cons.mp hpiece with rfl | hlater
        · simp
        · exact ih hlater
      · rename_i hother
        have hc : separator ≠ c := by simpa [eq_comm] using hother
        split at hpiece
        · obtain rfl : piece = [c] := by simpa using hpiece
          simpa using hc
        · rename_i first others hrest
          rcases List.mem_cons.mp hpiece with rfl | hlater
          · have hfirst := ih (hrest ▸ List.mem_cons_self)
            simp [hc, hfirst]
          · exact ih (hrest ▸ List.mem_cons_of_mem _ hlater)

/-- The pieces are the texts without a separator that give the text when they are joined. -/
theorem pieces_eq_iff {separator : Char} {texts : List (List Char)} :
    pieces (· = separator) cs = texts ↔
      texts ≠ [] ∧ (∀ text ∈ texts, separator ∉ text) ∧ cs = [separator].intercalate texts := by
  constructor
  · rintro rfl
    refine ⟨pieces_ne_nil _ cs, fun text htext => not_mem_of_mem_pieces htext, ?_⟩
    rw [pieces_eq_splitOn, List.intercalate_splitOn]
  · rintro ⟨hfilled, hwhole, rfl⟩
    rw [pieces_eq_splitOn, List.splitOn_intercalate separator hwhole hfilled]

/-! ## Cutting at a character -/

section

variable {c : Char} {front : List Char}

theorem passed_of_not_mem (hnone : c ∉ front) : ∀ d ∈ front, decide (d ≠ c) = true :=
  fun _ hd => decide_eq_true fun hsame => hnone (hsame ▸ hd)

theorem dropWhile_uncut (hnone : c ∉ front) : front.dropWhile (· ≠ c) = [] :=
  List.dropWhile_eq_nil_iff.mpr (passed_of_not_mem hnone)

/-- A front without the character is passed over, and the character stops the search. -/
theorem dropWhile_cut (hfront : c ∉ front) (cs : List Char) :
    (front ++ c :: cs).dropWhile (· ≠ c) = c :: cs := by
  rw [List.dropWhile_append_of_pos (passed_of_not_mem hfront),
    List.dropWhile_cons_of_neg (by simp)]

theorem takeWhile_cut (hfront : c ∉ front) (cs : List Char) :
    (front ++ c :: cs).takeWhile (· ≠ c) = front := by
  rw [List.takeWhile_append_of_pos (passed_of_not_mem hfront),
    List.takeWhile_cons_of_neg (by simp), List.append_nil]

end

/-! ## Words -/

/-- Blanks only. -/
def IsBlanks (cs : List Char) : Prop :=
  ∀ c ∈ cs, isBlank c = true

instance (cs : List Char) : Decidable (IsBlanks cs) :=
  List.decidableBAll _ cs

/-- At least one character, and no blank. -/
def IsWord (cs : List Char) : Prop :=
  cs ≠ [] ∧ ∀ c ∈ cs, isBlank c = false

instance (cs : List Char) : Decidable (IsWord cs) :=
  haveI : Decidable (∀ c ∈ cs, isBlank c = false) := List.decidableBAll _ cs
  inferInstanceAs (Decidable (_ ∧ _))

/-- A blank first, or nothing. -/
def StartsBlank (cs : List Char) : Prop :=
  ∀ c ∈ cs.head?, isBlank c = true

theorem IsBlanks.not_mem {c : Char} (hblanks : IsBlanks cs) (hc : isBlank c = false) : c ∉ cs := by
  intro hmem
  rw [hblanks c hmem] at hc
  exact absurd hc (by decide)

theorem IsBlanks.startsBlank (hblanks : IsBlanks cs) : StartsBlank cs :=
  fun c hc => hblanks c (List.mem_of_mem_head? hc)

theorem IsBlanks.startsBlank_append (hgap : IsBlanks gap) (hfilled : gap ≠ [])
    (cs : List Char) : StartsBlank (gap ++ cs) := by
  cases gap with
  | nil => exact absurd rfl hfilled
  | cons c gap => exact hgap.startsBlank

theorem words_cons_blank {c : Char} (hblank : isBlank c = true) (cs : List Char) :
    words (c :: cs) = words cs := by
  simp [words, pieces, hblank]

theorem words_blanks_append (hgap : IsBlanks gap) (cs : List Char) :
    words (gap ++ cs) = words cs := by
  induction gap with
  | nil => rfl
  | cons c gap ih =>
      rw [List.cons_append, words_cons_blank (hgap c List.mem_cons_self)]
      exact ih fun later hlater => hgap later (List.mem_cons_of_mem c hlater)

/-- A word ends where a blank follows. -/
theorem words_word_append (hword : IsWord word) (hrest : StartsBlank rest) :
    words (word ++ rest) = word :: words rest := by
  obtain ⟨hfilled, hwhole⟩ := hword
  have hkept : word.isEmpty = false := by simpa using hfilled
  cases rest with
  | nil =>
      rw [List.append_nil, words, words, pieces_eq_splitOnP, List.splitOnP_eq_singleton hwhole]
      simp [pieces, hkept]
  | cons c rest =>
      have hblank : isBlank c = true := hrest c rfl
      rw [words_cons_blank hblank, words, words, pieces_eq_splitOnP, pieces_eq_splitOnP,
        List.splitOnP_append_cons_of_forall_mem hwhole c hblank]
      simp [hkept]

/-- What a run of characters stops at is none of them. -/
theorem head?_dropWhile (p : Char → Bool) (cs : List Char) :
    ∀ c ∈ (cs.dropWhile p).head?, p c = false := by
  intro c hc
  have hstop := List.head?_dropWhile_not p cs
  rw [Option.mem_def.mp hc] at hstop
  exact hstop

/-- A text is blanks, a word, and what does not belong to it, or blanks only. -/
theorem exists_firstWord (cs : List Char) :
    IsBlanks cs ∨ ∃ gap word rest, IsBlanks gap ∧ IsWord word ∧ StartsBlank rest ∧
      cs = gap ++ (word ++ rest) := by
  cases hbehind : cs.dropWhile isBlank with
  | nil => exact Or.inl (List.dropWhile_eq_nil_iff.mp hbehind)
  | cons c later =>
      have hc : isBlank c = false :=
        head?_dropWhile isBlank cs c (by rw [hbehind, List.head?_cons, Option.mem_some_iff])
      have hletters : ∀ d ∈ (c :: later).takeWhile (!isBlank ·), isBlank d = false := by
        intro d hd
        simpa using List.mem_takeWhile_imp hd
      refine Or.inr ⟨cs.takeWhile isBlank, (c :: later).takeWhile (!isBlank ·),
        (c :: later).dropWhile (!isBlank ·), fun _ => List.mem_takeWhile_imp,
        ⟨by simp [hc], hletters⟩, ?_, ?_⟩
      · intro d hd
        simpa using head?_dropWhile (!isBlank ·) (c :: later) d hd
      · rw [List.takeWhile_append_dropWhile, ← hbehind, List.takeWhile_append_dropWhile]

theorem words_of_blanks (hblanks : IsBlanks cs) : words cs = [] := by
  have hnone := words_blanks_append hblanks []
  rwa [List.append_nil] at hnone

theorem words_eq_nil_iff : words cs = [] ↔ IsBlanks cs := by
  refine ⟨fun hnone => ?_, words_of_blanks⟩
  rcases exists_firstWord cs with hblanks | ⟨gap, word, rest, hgap, hword, hrest, rfl⟩
  · exact hblanks
  · rw [words_blanks_append hgap, words_word_append hword hrest] at hnone
    exact absurd hnone (List.cons_ne_nil _ _)

/-- The first word stands behind blanks, and what follows it starts with a blank. -/
theorem words_eq_cons_iff {others : List (List Char)} :
    words cs = word :: others ↔
      ∃ gap rest, IsBlanks gap ∧ IsWord word ∧ StartsBlank rest ∧
        cs = gap ++ (word ++ rest) ∧ words rest = others := by
  constructor
  · intro hwords
    rcases exists_firstWord cs with hblanks | ⟨gap, first, rest, hgap, hfirst, hrest, rfl⟩
    · rw [words_of_blanks hblanks] at hwords
      exact absurd hwords.symm (List.cons_ne_nil _ _)
    · rw [words_blanks_append hgap, words_word_append hfirst hrest] at hwords
      obtain ⟨rfl, rfl⟩ := List.cons.inj hwords
      exact ⟨gap, rest, hgap, hfirst, hrest, rfl, rfl⟩
  · rintro ⟨gap, rest, hgap, hword, hrest, rfl, rfl⟩
    rw [words_blanks_append hgap, words_word_append hword hrest]

/-- A word does not start with a blank, so that blanks stand in front of it. -/
theorem StartsBlank.ne_nil (hstarts : StartsBlank (gap ++ (word ++ rest))) (hword : IsWord word) :
    gap ≠ [] := by
  obtain ⟨hfilled, hwhole⟩ := hword
  rintro rfl
  obtain ⟨c, later, rfl⟩ := List.exists_cons_of_ne_nil hfilled
  have hblank := hstarts c rfl
  rw [hwhole c List.mem_cons_self] at hblank
  exact absurd hblank (by decide)

/-! ## Trimming -/

/-- No blank at either end. -/
structure IsTrimmed (cs : List Char) : Prop where
  front : ∀ c ∈ cs.head?, isBlank c = false
  back : ∀ c ∈ cs.getLast?, isBlank c = false

theorem dropWhile_of_head? {p : Char → Bool} (hfront : ∀ c ∈ cs.head?, p c = false) :
    cs.dropWhile p = cs := by
  cases cs with
  | nil => rfl
  | cons c rest => exact List.dropWhile_cons_of_neg (by simp [hfront c rfl])

theorem trim_between {before after : List Char} (hbefore : IsBlanks before)
    (htrimmed : IsTrimmed cs) (hafter : IsBlanks after) : trim (before ++ cs ++ after) = cs := by
  cases cs with
  | nil =>
      have hblanks : IsBlanks (before ++ [] ++ after) := by
        intro c hc
        rw [List.append_nil] at hc
        exact (List.mem_append.mp hc).elim (hbefore c) (hafter c)
      rw [trim, List.dropWhile_eq_nil_iff.mpr hblanks]
      rfl
  | cons c rest =>
      have hfront : (before ++ c :: rest ++ after).dropWhile isBlank = c :: rest ++ after := by
        rw [List.append_assoc, List.dropWhile_append_of_pos hbefore]
        exact dropWhile_of_head? htrimmed.front
      have hback : (c :: rest ++ after).reverse.dropWhile isBlank = (c :: rest).reverse := by
        rw [List.reverse_append,
          List.dropWhile_append_of_pos fun d hd => hafter d (List.mem_reverse.mp hd)]
        exact dropWhile_of_head? (by simpa only [List.head?_reverse] using htrimmed.back)
      rw [trim, hfront, hback, List.reverse_reverse]

/-- Trimming takes blanks off both ends, and leaves none there. -/
theorem exists_trim (cs : List Char) :
    ∃ before after, IsBlanks before ∧ IsBlanks after ∧ IsTrimmed (trim cs) ∧
      cs = before ++ trim cs ++ after := by
  have hsplit : cs.dropWhile isBlank
      = trim cs ++ ((cs.dropWhile isBlank).reverse.takeWhile isBlank).reverse := by
    rw [trim, ← List.reverse_append, List.takeWhile_append_dropWhile, List.reverse_reverse]
  refine ⟨cs.takeWhile isBlank, ((cs.dropWhile isBlank).reverse.takeWhile isBlank).reverse,
    fun _ => List.mem_takeWhile_imp, ?_, ⟨?_, ?_⟩, ?_⟩
  · intro c hc
    exact List.mem_takeWhile_imp (List.mem_reverse.mp hc)
  · -- what is left starts where the blanks in front of it stop
    intro c hc
    apply head?_dropWhile isBlank cs c
    rw [hsplit]
    simp [Option.mem_def.mp hc]
  · intro c hc
    rw [trim, List.getLast?_reverse] at hc
    exact head?_dropWhile isBlank _ c hc
  · rw [List.append_assoc, ← hsplit, List.takeWhile_append_dropWhile]

/-! ## Letter case -/

/-- A small ASCII letter that is the lower-case form of ASCII letters only. -/
def IsPlainLetter (c : Char) : Prop :=
  0x61 ≤ c.toNat ∧ c.toNat ≤ 0x7A ∧ c ≠ 'k'

instance (c : Char) : Decidable (IsPlainLetter c) :=
  inferInstanceAs (Decidable (_ ∧ _ ∧ _))

/-- Plain letters only. -/
def IsPlain (cs : List Char) : Prop :=
  ∀ c ∈ cs, IsPlainLetter c

instance (cs : List Char) : Decidable (IsPlain cs) :=
  List.decidableBAll _ cs

/-- The first run of capitals is that of the ASCII letters, and no other run starts in ASCII. -/
theorem runs_of_ascii :
    capitalRuns = (0x41, 0x5A, 1, 0x61) :: capitalRuns.tail ∧
      ∀ run ∈ capitalRuns.tail, 128 ≤ run.1 :=
  ⟨rfl, by decide +kernel⟩

theorem lowerOf_of_ascii {c : Char} (hascii : c.toNat < 128) : lowerOf c = c.toLower := by
  obtain ⟨hfirst, hothers⟩ := runs_of_ascii
  have hevery : ∀ n : Fin 128, (if 0x41 ≤ n.val ∧ n.val ≤ 0x5A
      then Char.ofNat (0x61 + (n.val - 0x41)) else Char.ofNat n.val)
        = (Char.ofNat n.val).toLower := by
    decide +kernel
  have hlower := hevery ⟨c.toNat, hascii⟩
  rw [Char.ofNat_toNat] at hlower
  rw [lowerOf, hfirst, List.find?_cons, List.find?_eq_none.mpr, ← hlower]
  · by_cases hcapital : 0x41 ≤ c.toNat ∧ c.toNat ≤ 0x5A
    · simp [hcapital, Nat.mod_one]
    · have hmissed : (decide (0x41 ≤ c.toNat) && decide (c.toNat ≤ 0x5A) &&
          (c.toNat - 0x41) % 1 == 0) = false := by
        simpa [Nat.mod_one] using hcapital
      rw [if_neg hcapital]
      simp only [hmissed]
  · rintro ⟨first, last, step, lower⟩ hrun
    have hbehind : 128 ≤ first := hothers _ hrun
    have hless : ¬ first ≤ c.toNat := by omega
    simp [hless]

theorem toLower_of_not_ascii {c : Char} (hother : 128 ≤ c.toNat) : c.toLower = c := by
  apply dif_neg
  rintro ⟨-, hle⟩
  have hsmall : c.toNat ≤ 'Z'.toNat := UInt32.le_iff_toNat_le.mp hle
  exact absurd (Nat.le_trans hother hsmall) (by decide)

/-- Apart from the ASCII capitals and the Kelvin sign the lower-case forms of the table are not
ASCII. -/
theorem lower_of_mem_capitalRuns : ∀ run ∈ capitalRuns,
    run.2.1 < 128 ∨ run = (0x212A, 0x212A, 1, 0x6B) ∨ 0x7A < run.2.2.2 := by
  decide +kernel

/-- A number that is no code point gives the null character. -/
theorem toNat_charOf (n : Nat) : (Char.ofNat n).toNat = n ∨ (Char.ofNat n).toNat = 0 := by
  by_cases hvalid : n.isValidChar
  · exact Or.inl (by rw [Char.ofNat, dif_pos hvalid]; rfl)
  · exact Or.inr (by rw [Char.ofNat, dif_neg hvalid]; rfl)

theorem lowerOf_ne_of_not_ascii {c letter : Char} (hother : 128 ≤ c.toNat)
    (hplain : IsPlainLetter letter) : lowerOf c ≠ letter := by
  obtain ⟨hlow, hhigh, hk⟩ := hplain
  unfold lowerOf
  split
  · rename_i first last step lower hfind
    have hrange := List.find?_some hfind
    simp only [Bool.and_eq_true, decide_eq_true_eq] at hrange
    rcases lower_of_mem_capitalRuns _ (List.mem_of_find?_eq_some hfind) with hsmall | hkelvin | hbig
    · simp only at hsmall
      omega
    · simp only [Prod.mk.injEq] at hkelvin
      obtain ⟨rfl, rfl, rfl, rfl⟩ := hkelvin
      have hsame : c.toNat = 0x212A := by omega
      rw [hsame]
      exact hk.symm
    · rintro rfl
      simp only at hbig hlow hhigh
      rcases toNat_charOf (lower + (c.toNat - first)) with hcode | hcode <;> omega
  · rintro rfl
    omega

theorem ne_of_not_ascii {c letter : Char} (hother : 128 ≤ c.toNat)
    (hplain : IsPlainLetter letter) : c ≠ letter := by
  rintro rfl
  have hhigh := hplain.2.1
  omega

theorem lowerOf_eq_iff {c letter : Char} (hplain : IsPlainLetter letter) :
    lowerOf c = letter ↔ c.toLower = letter := by
  rcases Nat.lt_or_ge c.toNat 128 with hascii | hother
  · rw [lowerOf_of_ascii hascii]
  · rw [toLower_of_not_ascii hother, iff_false_left (lowerOf_ne_of_not_ascii hother hplain)]
    exact ne_of_not_ascii hother hplain

/-- No blank is a plain letter in either case. -/
theorem isBlank_of_toLower {c : Char} (hplain : IsPlainLetter c.toLower) :
    isBlank c = false := by
  have hevery : ∀ n : Fin 128, IsPlainLetter (Char.ofNat n.val).toLower →
      isBlank (Char.ofNat n.val) = false := by
    decide +kernel
  rcases Nat.lt_or_ge c.toNat 128 with hascii | hother
  · simpa [hplain] using hevery ⟨c.toNat, hascii⟩
  · rw [toLower_of_not_ascii hother] at hplain
    exact absurd rfl (ne_of_not_ascii hother hplain)

/-- A text in plain letters is the lower-case form of the texts that spell it in either case. -/
theorem lowerAfter_eq_iff {letters : List Char} (before : List Char)
    (hplain : IsPlain letters) :
    lowerAfter before cs = letters ↔ cs.map Char.toLower = letters := by
  induction cs generalizing before letters with
  | nil => rfl
  | cons c rest ih =>
      cases letters with
      | nil =>
          rw [lowerAfter]
          split_ifs <;> simp
      | cons letter letters =>
          have hletter := hplain letter List.mem_cons_self
          have hbehind : IsPlain letters := fun d hd => hplain d (List.mem_cons_of_mem letter hd)
          rw [lowerAfter, List.map_cons, List.cons.injEq]
          -- the two capitals with a form of their own spell no plain letters
          by_cases hsigma : c = 'Σ'
          · subst hsigma
            refine iff_of_false ?_ fun ⟨hsame, _⟩ => ne_of_not_ascii (by decide) hletter hsame
            simp only [↓reduceIte]
            split <;> exact fun h => ne_of_not_ascii (by decide) hletter (List.cons.inj h).1
          by_cases hdotted : c = 'İ'
          · subst hdotted
            refine iff_of_false (fun h => ?_) fun ⟨hsame, _⟩ =>
              ne_of_not_ascii (by decide) hletter hsame
            have hdot : '\u0307' ∈ letters := by
              rw [← (List.cons.inj h).2]
              exact List.mem_cons_self
            exact ne_of_not_ascii (by decide) (hbehind _ hdot) rfl
          simp only [hsigma, hdotted, ↓reduceIte, List.singleton_append, List.cons.injEq,
            lowerOf_eq_iff hletter, ih (c :: before) hbehind]

theorem lower_eq_iff {letters : List Char} (hplain : IsPlain letters) :
    lower cs = letters ↔ cs.map Char.toLower = letters :=
  lowerAfter_eq_iff [] hplain

end HeapStore.Text
