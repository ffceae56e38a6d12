import HeapStore.Catalog.Line
import HeapStore.Proofs.Results
import HeapStore.Proofs.Words

/-!
# What a table line may say

A line is written from a table definition and a layout: blanks around the name, the parentheses,
the commas and the tokens, and a letter case of the type words (`LineText`, `ColumnText`).  Reading
takes what is written up to the closing parenthesis, and gives the definition (`parse_eq_ok_iff`).
What stands behind the last closing parenthesis of a line is not read at all: a line with more than
blanks there is accepted, though it is not written in this form (`accepts_ignoring_rest`).
-/

namespace HeapStore.CatalogLine

open Text (IsBlanks IsWord IsTrimmed StartsBlank dropWhile_cut dropWhile_uncut takeWhile_cut)

/-! ## Lines as they are written -/

/-- Blanks between the tokens of a line. -/
abbrev Blanks := { gap : List Char // IsBlanks gap }

/-- A column with its layout: name, type word and mark with the blanks around them.  The type word
is the type in any letter case. -/
structure ColumnText where
  column : Column
  typeWord : List Char
  before : Blanks
  between : Blanks
  /-- The blanks in front of the word `pk`, if the column is the primary key. -/
  mark : Option Blanks
  after : Blanks
  name_word : IsWord column.name.toList
  name_whole : ',' ∉ column.name.toList
  spells_type : typeWord.map Char.toLower = column.type.render.toList
  between_filled : between.val ≠ []
  mark_filled : ∀ gap ∈ mark, gap.val ≠ []

/-- A table line with its layout. -/
structure LineText where
  name : String
  columns : List ColumnText
  before : Blanks
  between : Blanks
  after : Blanks
  name_filled : name.toList ≠ []
  name_trimmed : IsTrimmed name.toList
  name_whole : '(' ∉ name.toList
  columns_filled : columns ≠ []

namespace ColumnText

/-- The column is marked as the primary key. -/
def isKey (written : ColumnText) : Bool :=
  written.mark.isSome

/-- What is to be read from the column. -/
def reading (written : ColumnText) : Column × Bool :=
  (written.column, written.isKey)

/-- What stands behind the type word. -/
def tail : Option Blanks → Blanks → List Char
  | none, after => after.val
  | some gap, after => gap.val ++ (['p', 'k'] ++ after.val)

/-- The column as it is written. -/
def text (written : ColumnText) : List Char :=
  written.before.val ++ (written.column.name.toList ++
    (written.between.val ++ (written.typeWord ++ tail written.mark written.after)))

end ColumnText

namespace LineText

/-- The columns as they are written, with commas between them. -/
def inner (written : LineText) : List Char :=
  [','].intercalate (written.columns.map (·.text))

/-- The line as it is written, up to its closing parenthesis. -/
def body (written : LineText) : List Char :=
  written.before.val ++ written.name.toList ++ written.between.val ++
    '(' :: (written.inner ++ [')'])

/-- The whole line as it is written. -/
def text (written : LineText) : List Char :=
  written.body ++ written.after.val

/-- The names of the columns that are marked as the primary key. -/
def keys (written : LineText) : List String :=
  (written.columns.filter (·.isKey)).map (·.column.name)

/-- What the line says: of several marks the last one counts. -/
def definition (written : LineText) : TableDefinition where
  name := written.name
  schema := ⟨written.columns.map (·.column)⟩
  primaryKey := written.keys.getLast?

end LineText

/-- The errors that reading a line may end in. -/
inductive Refused (line : String) : StoreError → Prop
  | invalidEntry : Refused line (.catalog (.invalidEntry line))
  | unknownType (word : String) : Refused line (.catalog (.unknownType word line))
  | unknownMark (word : String) : Refused line (.catalog (.unknownMark word line))

/-- What stands behind the last closing parenthesis. -/
def remainder (line : List Char) : List Char :=
  (line.reverse.takeWhile (· ≠ ')')).reverse

variable {line : String} {text inner before rest : List Char}

/-! ## Cutting at the parentheses -/

theorem split?_cut (hbefore : '(' ∉ before) (hrest : ')' ∉ rest) :
    split? (before ++ '(' :: (inner ++ ')' :: rest)) = some (before, inner) := by
  have hback : (inner ++ ')' :: rest).reverse.dropWhile (· ≠ ')') = ')' :: inner.reverse := by
    rw [List.reverse_append, List.reverse_cons, List.append_assoc, List.singleton_append]
    exact dropWhile_cut (by rwa [List.mem_reverse]) inner.reverse
  simp only [split?, dropWhile_cut hbefore, takeWhile_cut hbefore, hback, List.reverse_reverse]

/-- A line is cut at its first opening and its last closing parenthesis. -/
theorem split?_eq_some_iff {cs : List Char} :
    split? cs = some (before, inner) ↔
      ∃ rest, '(' ∉ before ∧ ')' ∉ rest ∧ cs = before ++ '(' :: (inner ++ ')' :: rest) := by
  constructor
  · intro hsplit
    by_cases hopen : '(' ∈ cs
    · obtain ⟨front, back, rfl, hfront⟩ := List.eq_append_cons_of_mem hopen
      by_cases hclose : ')' ∈ back.reverse
      · obtain ⟨behind, columns, hback, hbehind⟩ := List.eq_append_cons_of_mem hclose
        have hcut : back = columns.reverse ++ ')' :: behind.reverse := by
          rw [← List.reverse_reverse back, hback]
          simp
        have hnone : ')' ∉ behind.reverse := by rwa [List.mem_reverse]
        rw [hcut, split?_cut hfront hnone, Option.some.injEq, Prod.mk.injEq] at hsplit
        obtain ⟨rfl, rfl⟩ := hsplit
        exact ⟨behind.reverse, hfront, hnone, by rw [hcut]⟩
      · simp only [split?, dropWhile_cut hfront, dropWhile_uncut hclose] at hsplit
        cases hsplit
    · simp only [split?, dropWhile_uncut hopen] at hsplit
      cases hsplit
  · rintro ⟨rest, hbefore, hrest, rfl⟩
    exact split?_cut hbefore hrest

/-! ## Reading a column -/

theorem plain_render (type : FieldType) : Text.IsPlain type.render.toList := by
  cases type <;> decide

/-- A type word is the type in any letter case. -/
theorem readType_eq_ok_iff {word : List Char} {type : FieldType} :
    readType line word = .ok type ↔ word.map Char.toLower = type.render.toList := by
  have hspells : ∀ other : FieldType, String.ofList (Text.lower word) = other.render ↔
      word.map Char.toLower = other.render.toList := by
    intro other
    rw [← Text.lower_eq_iff (plain_render other), ← String.toList_inj, String.toList_ofList]
  rw [← hspells]
  simp only [readType]
  split
  next hint =>
    rw [hint]
    cases type <;> simp [FieldType.render]
  next hint =>
    split
    next hstring =>
      rw [hstring]
      cases type <;> simp [FieldType.render]
    next hstring => cases type <;> simp [FieldType.render, hint, hstring]

theorem refused_readType {word : List Char} {error : StoreError}
    (hread : readType line word = .error error) : Refused line error := by
  rw [readType] at hread
  split at hread
  · cases hread
  · split at hread
    · cases hread
    · cases hread
      exact .unknownType _

/-- The word that marks the primary key, if there is one. -/
def markWords (isKey : Bool) : List (List Char) :=
  if isKey then [['p', 'k']] else []

/-- A column is read from its words. -/
theorem readColumn_eq_ok_iff {column : Column} {isKey : Bool} :
    readColumn line text = .ok (column, isKey) ↔
      ∃ typeWord, Text.words text = column.name.toList :: typeWord :: markWords isKey ∧
        readType line typeWord = .ok column.type := by
  constructor
  · intro hread
    rw [readColumn] at hread
    split at hread
    next name typeWord hwords =>
      obtain ⟨type, htype, hread⟩ := bind_eq_ok_iff.mp hread
      obtain ⟨rfl, rfl⟩ := Prod.mk.inj (Except.ok.inj hread)
      exact ⟨typeWord, by rw [hwords, String.toList_ofList]; rfl, htype⟩
    next name typeWord mark hwords =>
      obtain ⟨type, htype, hread⟩ := bind_eq_ok_iff.mp hread
      split at hread
      next hmark =>
        obtain ⟨rfl, rfl⟩ := Prod.mk.inj (Except.ok.inj hread)
        exact ⟨typeWord, by rw [hwords, String.toList_ofList, hmark]; rfl, htype⟩
      next => cases hread
    next => cases hread
  · rintro ⟨typeWord, hwords, htype⟩
    cases isKey <;> simp [readColumn, hwords, markWords, htype]

theorem refused_readColumn {error : StoreError} (hread : readColumn line text = .error error) :
    Refused line error := by
  rw [readColumn] at hread
  split at hread
  next name typeWord hwords =>
    rcases bind_eq_error_iff.mp hread with htype | ⟨type, -, hread⟩
    · exact refused_readType htype
    · cases hread
  next name typeWord mark hwords =>
    rcases bind_eq_error_iff.mp hread with htype | ⟨type, -, hread⟩
    · exact refused_readType htype
    · split at hread <;> cases hread
      exact .unknownMark _
  next =>
    cases hread
    exact .invalidEntry

/-! ## Columns and their words -/

theorem isWord_of_spells {word : List Char} {type : FieldType}
    (hspells : word.map Char.toLower = type.render.toList) : IsWord word := by
  constructor
  · rintro rfl
    revert hspells
    cases type <;> decide
  · intro c hc
    refine Text.isBlank_of_toLower (plain_render type _ ?_)
    rw [← hspells]
    exact List.mem_map_of_mem hc

namespace ColumnText

/-- What stands behind the type word is no mark, or a mark with blanks in front of it. -/
theorem words_tail_iff {isKey : Bool} :
    StartsBlank text ∧ Text.words text = markWords isKey ↔
      ∃ mark after, mark.isSome = isKey ∧ (∀ gap ∈ mark, gap.val ≠ []) ∧
        text = tail mark after := by
  have hword : IsWord ['p', 'k'] := by decide
  constructor
  · rintro ⟨hstarts, hwords⟩
    cases isKey with
    | false =>
        exact ⟨none, ⟨text, Text.words_eq_nil_iff.mp hwords⟩, rfl, by simp, rfl⟩
    | true =>
        obtain ⟨gap, after, hgap, -, -, rfl, hafter⟩ := Text.words_eq_cons_iff.mp hwords
        refine ⟨some ⟨gap, hgap⟩, ⟨after, Text.words_eq_nil_iff.mp hafter⟩, rfl, ?_, rfl⟩
        simpa using hstarts.ne_nil hword
  · rintro ⟨mark, after, rfl, hfilled, rfl⟩
    cases mark with
    | none => exact ⟨after.property.startsBlank, Text.words_of_blanks after.property⟩
    | some gap =>
        refine ⟨gap.property.startsBlank_append (hfilled gap rfl) _, ?_⟩
        rw [tail, Text.words_blanks_append gap.property,
          Text.words_word_append hword after.property.startsBlank,
          Text.words_of_blanks after.property]
        rfl

theorem words_text (written : ColumnText) :
    Text.words written.text =
      written.column.name.toList :: written.typeWord :: markWords written.isKey := by
  obtain ⟨hstarts, htail⟩ := words_tail_iff.mpr
    ⟨written.mark, written.after, rfl, written.mark_filled, rfl⟩
  rw [text, Text.words_blanks_append written.before.property,
    Text.words_word_append written.name_word
      (written.between.property.startsBlank_append written.between_filled _),
    Text.words_blanks_append written.between.property,
    Text.words_word_append (isWord_of_spells written.spells_type) hstarts, htail, isKey]

/-- A text with these words is a column that is written so. -/
theorem exists_text {column : Column} {isKey : Bool} {typeWord : List Char}
    (hwhole : ',' ∉ text)
    (hwords : Text.words text = column.name.toList :: typeWord :: markWords isKey)
    (hspells : typeWord.map Char.toLower = column.type.render.toList) :
    ∃ written : ColumnText, written.text = text ∧ written.column = column ∧
      written.isKey = isKey := by
  obtain ⟨before, behind, hbefore, hname, hbehind, rfl, hlater⟩ := Text.words_eq_cons_iff.mp hwords
  obtain ⟨between, tail, hbetween, htype, hstarts, rfl, hmark⟩ := Text.words_eq_cons_iff.mp hlater
  obtain ⟨mark, after, hkey, hfilled, rfl⟩ := words_tail_iff.mp ⟨hstarts, hmark⟩
  refine ⟨{
    column, typeWord, mark, after
    before := ⟨before, hbefore⟩
    between := ⟨between, hbetween⟩
    name_word := hname
    name_whole := fun hmem => hwhole (by simp [hmem])
    spells_type := hspells
    between_filled := hbehind.ne_nil htype
    mark_filled := hfilled }, rfl, rfl, hkey⟩

end ColumnText

/-- What is read from a column text is what was written, and only such texts are read. -/
theorem readColumn_iff {read : Column × Bool} (hwhole : ',' ∉ text) :
    readColumn line text = .ok read ↔
      ∃ written : ColumnText, written.text = text ∧ written.reading = read := by
  obtain ⟨column, isKey⟩ := read
  rw [readColumn_eq_ok_iff]
  constructor
  · rintro ⟨typeWord, hwords, htype⟩
    obtain ⟨written, htext, rfl, rfl⟩ :=
      ColumnText.exists_text hwhole hwords (readType_eq_ok_iff.mp htype)
    exact ⟨written, htext, rfl⟩
  · rintro ⟨written, rfl, hread⟩
    obtain ⟨rfl, rfl⟩ := Prod.mk.inj hread
    exact ⟨written.typeWord, written.words_text, readType_eq_ok_iff.mpr written.spells_type⟩

/-! ## Reading a line -/

theorem readColumns_iff {texts : List (List Char)} {reads : List (Column × Bool)}
    (hwhole : ∀ text ∈ texts, ',' ∉ text) :
    texts.mapM (readColumn line) = .ok reads ↔
      ∃ columns : List ColumnText, columns.map (·.text) = texts ∧
        columns.map (·.reading) = reads := by
  induction texts generalizing reads with
  | nil =>
      constructor
      · intro hread
        obtain rfl := Except.ok.inj hread
        exact ⟨[], rfl, rfl⟩
      · rintro ⟨columns, hnone, rfl⟩
        obtain rfl := List.map_eq_nil_iff.mp hnone
        rfl
  | cons text texts ih =>
      have hfirst := hwhole text List.mem_cons_self
      have hlater := fun other hother => hwhole other (List.mem_cons_of_mem text hother)
      rw [mapM_cons_eq_ok_iff]
      constructor
      · rintro ⟨read, others, hread, hothers, rfl⟩
        obtain ⟨written, rfl, rfl⟩ := (readColumn_iff hfirst).mp hread
        obtain ⟨columns, rfl, rfl⟩ := (ih hlater).mp hothers
        exact ⟨written :: columns, rfl, rfl⟩
      · rintro ⟨columns, htexts, rfl⟩
        obtain ⟨written, columns, rfl, rfl, rfl⟩ := List.map_eq_cons_iff.mp htexts
        exact ⟨_, _, (readColumn_iff hfirst).mpr ⟨written, rfl, rfl⟩,
          (ih hlater).mpr ⟨columns, rfl, rfl⟩, rfl⟩

namespace ColumnText

/-- Commas stand between the columns only. -/
theorem whole_text (written : ColumnText) : ',' ∉ written.text := by
  have hblanks : ∀ gap : Blanks, ',' ∉ gap.val := fun gap => gap.property.not_mem (by decide)
  have htype : ',' ∉ written.typeWord := by
    intro hmem
    have hplain := plain_render written.column.type ',' (by
      rw [← written.spells_type]
      exact List.mem_map_of_mem (f := Char.toLower) hmem)
    exact absurd hplain (by decide)
  have htail : ',' ∉ tail written.mark written.after := by
    cases written.mark with
    | none => exact hblanks _
    | some gap => simp [tail, hblanks]
  simp only [text, List.mem_append, not_or]
  exact ⟨hblanks _, written.name_whole, hblanks _, htype, htail⟩

end ColumnText

namespace LineText

theorem body_append (written : LineText) (rest : List Char) :
    written.body ++ rest = (written.before.val ++ written.name.toList ++ written.between.val) ++
      '(' :: (written.inner ++ ')' :: rest) := by
  simp [body]

theorem split?_body (written : LineText) (hrest : ')' ∉ rest) :
    split? (written.body ++ rest) =
      some (written.before.val ++ written.name.toList ++ written.between.val, written.inner) := by
  have hblanks : ∀ gap : Blanks, '(' ∉ gap.val := fun gap => gap.property.not_mem (by decide)
  rw [body_append]
  refine split?_cut ?_ hrest
  simp only [List.mem_append, not_or]
  exact ⟨⟨hblanks _, written.name_whole⟩, hblanks _⟩

theorem whole_columns (written : LineText) :
    ∀ text ∈ written.columns.map (·.text), ',' ∉ text := by
  simp only [List.mem_map]
  rintro text ⟨column, -, rfl⟩
  exact column.whole_text

theorem pieces_inner (written : LineText) :
    Text.pieces (· = ',') written.inner = written.columns.map (·.text) :=
  Text.pieces_eq_iff.mpr ⟨by simpa using written.columns_filled, written.whole_columns, rfl⟩

end LineText

/-- The definition of a name and of the columns that were read. -/
def definitionOf (name : List Char) (reads : List (Column × Bool)) : TableDefinition where
  name := String.ofList name
  schema := ⟨reads.map (·.1)⟩
  primaryKey :=
    (reads.filterMap fun (column, isKey) => if isKey then some column.name else none).getLast?

/-- The marked columns among the columns that were read. -/
theorem keys_readings (columns : List ColumnText) :
    (columns.map (·.reading)).filterMap
        (fun (column, isKey) => if isKey then some column.name else none) =
      (columns.filter (·.isKey)).map (·.column.name) := by
  induction columns with
  | nil => rfl
  | cons column columns ih =>
      rw [List.map_cons, List.filterMap_cons, ih]
      cases hkey : column.isKey <;> simp [ColumnText.reading, hkey]

theorem LineText.definition_eq (written : LineText) :
    definitionOf written.name.toList (written.columns.map (·.reading)) = written.definition := by
  simp only [definitionOf, keys_readings, String.ofList_toList, List.map_map]
  rfl

/-- The cut, the name and the columns of a line that is accepted. -/
theorem parse_eq_ok_iff_reads {definition : TableDefinition} :
    parse line = .ok definition ↔
      ∃ before inner reads, split? line.toList = some (before, inner) ∧ Text.trim before ≠ [] ∧
        (Text.pieces (· = ',') inner).mapM (readColumn line) = .ok reads ∧
        definitionOf (Text.trim before) reads = definition := by
  rw [parse]
  cases hsplit : split? line.toList with
  | none =>
      refine iff_of_false (fun h => by cases h) ?_
      rintro ⟨before, inner, reads, hcut, -⟩
      cases hcut
  | some cut =>
      obtain ⟨before, inner⟩ := cut
      by_cases hname : Text.trim before = []
      · simp [hname]
      · simp only [hname, ↓reduceIte]
        rw [bind_eq_ok_iff]
        constructor
        · rintro ⟨reads, hreads, hdefinition⟩
          exact ⟨before, inner, reads, rfl, hname, hreads, Except.ok.inj hdefinition⟩
        · rintro ⟨before, inner, reads, ⟨⟩, -, hreads, rfl⟩
          exact ⟨reads, hreads, rfl⟩

theorem refused_parse {error : StoreError} (hparse : parse line = .error error) :
    Refused line error := by
  rw [parse] at hparse
  cases hsplit : split? line.toList with
  | none =>
      rw [hsplit] at hparse
      cases hparse
      exact .invalidEntry
  | some cut =>
      obtain ⟨before, inner⟩ := cut
      simp only [hsplit] at hparse
      split at hparse
      next =>
        cases hparse
        exact .invalidEntry
      next =>
        rcases bind_eq_error_iff.mp hparse with hreads | ⟨reads, -, hparse⟩
        · obtain ⟨text, -, hread⟩ := exists_of_mapM_error hreads
          exact refused_readColumn hread
        · cases hparse

/-- A line is accepted if it is written from a definition up to its last closing parenthesis. -/
theorem parse_eq_ok_iff {definition : TableDefinition} :
    parse line = .ok definition ↔
      ∃ written : LineText, ∃ rest, ')' ∉ rest ∧ line.toList = written.body ++ rest ∧
        written.definition = definition := by
  rw [parse_eq_ok_iff_reads]
  constructor
  · rintro ⟨before, inner, reads, hsplit, hname, hreads, rfl⟩
    obtain ⟨rest, hopen, hclose, hline⟩ := split?_eq_some_iff.mp hsplit
    obtain ⟨columns, htexts, rfl⟩ :=
      (readColumns_iff fun text htext => Text.not_mem_of_mem_pieces htext).mp hreads
    obtain ⟨hfilled, -, hinner⟩ := Text.pieces_eq_iff.mp htexts.symm
    obtain ⟨gap, between, hgap, hbetween, htrimmed, hbefore⟩ := Text.exists_trim before
    let written : LineText := {
      name := String.ofList (Text.trim before)
      columns
      before := ⟨gap, hgap⟩
      between := ⟨between, hbetween⟩
      after := ⟨[], by simp [IsBlanks]⟩
      name_filled := by rwa [String.toList_ofList]
      name_trimmed := by rwa [String.toList_ofList]
      name_whole := by
        rw [String.toList_ofList]
        exact fun hmem => hopen (by rw [hbefore]; simp [hmem])
      columns_filled := by simpa using hfilled }
    refine ⟨written, rest, hclose, ?_, ?_⟩
    · rw [hline, written.body_append, LineText.inner, ← hinner, String.toList_ofList, ← hbefore]
    · rw [← written.definition_eq, String.toList_ofList]
  · rintro ⟨written, rest, hrest, hline, rfl⟩
    have hname : Text.trim (written.before.val ++ written.name.toList ++ written.between.val) =
        written.name.toList :=
      Text.trim_between written.before.property written.name_trimmed written.between.property
    refine ⟨_, _, _, hline ▸ written.split?_body hrest, by rw [hname]; exact written.name_filled,
      ?_, by rw [hname]; exact written.definition_eq⟩
    rw [written.pieces_inner]
    exact (readColumns_iff written.whole_columns).mpr ⟨_, rfl, rfl⟩

/-! ## Every layout is read -/

/-- A name that stands alone is the last one. -/
theorem getLast?_eq_some_iff_mem {names : List String} (hfew : names.length ≤ 1) {name : String} :
    names.getLast? = some name ↔ name ∈ names := by
  match names with
  | [] => simp
  | [only] => simp [eq_comm]
  | _ :: _ :: _ => simp at hfew

/-- A written line is accepted, with the name, the columns and the primary key that were written. -/
theorem parse_text (written : LineText) (hkeys : (written.columns.filter (·.isKey)).length ≤ 1) :
    ∃ definition, parse (String.ofList written.text) = .ok definition ∧
      definition.name = written.name ∧
      definition.schema.columns = written.columns.map (·.column) ∧
      ∀ key, definition.primaryKey = some key ↔
        ∃ column ∈ written.columns, column.isKey = true ∧ column.column.name = key := by
  refine ⟨written.definition, parse_eq_ok_iff.mpr ⟨written, written.after.val, ?_, ?_, rfl⟩, rfl,
    rfl, fun key => ?_⟩
  · exact written.after.property.not_mem (by decide)
  · rw [String.toList_ofList, LineText.text]
  · have hfew : written.keys.length ≤ 1 := by rwa [LineText.keys, List.length_map]
    rw [LineText.definition, getLast?_eq_some_iff_mem hfew, LineText.keys]
    simp [and_assoc]

/-- Blanks everywhere, a blank and parentheses in names, letters that are not ASCII. -/
def sampleLine : LineText where
  name := "my table"
  columns := [
    { column := ⟨.string, "größe(m)"⟩
      typeWord := ['S', 't', 'R', 'i', 'n', 'G']
      before := ⟨[' '], by decide⟩
      between := ⟨['\t', '\u00a0'], by decide⟩
      mark := some ⟨[' ', ' '], by decide⟩
      after := ⟨[' '], by decide⟩
      name_word := by decide
      name_whole := by decide
      spells_type := by decide
      between_filled := by decide
      mark_filled := by decide },
    { column := ⟨.int, ")("⟩
      typeWord := ['I', 'N', 'T']
      before := ⟨[], by decide⟩
      between := ⟨[' '], by decide⟩
      mark := none
      after := ⟨[], by decide⟩
      name_word := by decide
      name_whole := by decide
      spells_type := by decide
      between_filled := by decide
      mark_filled := by decide }]
  before := ⟨['\t'], by decide⟩
  between := ⟨[], by decide⟩
  after := ⟨[' '], by decide⟩
  name_filled := by decide
  name_trimmed := ⟨by rintro c ⟨⟩; rfl, by rintro c ⟨⟩; rfl⟩
  name_whole := by decide
  columns_filled := by decide

theorem parse_text_sample :
    (sampleLine.columns.filter (·.isKey)).length ≤ 1 ∧
      String.ofList sampleLine.text = "\tmy table( größe(m)\t\u00a0StRinG  pk ,)( INT) " ∧
      ∃ definition, parse (String.ofList sampleLine.text) = .ok definition ∧
        definition.name = "my table" ∧
        definition.schema.columns = [⟨.string, "größe(m)"⟩, ⟨.int, ")("⟩] ∧
        definition.primaryKey = some "größe(m)" := by
  refine ⟨by decide, rfl, ?_⟩
  obtain ⟨definition, hparse, hname, hcolumns, hkey⟩ := parse_text sampleLine (by decide)
  exact ⟨definition, hparse, hname, hcolumns,
    (hkey _).mpr ⟨_, List.mem_cons_self, rfl, rfl⟩⟩

/-! ## What is not read -/

theorem remainder_cut (front : List Char) (hrest : ')' ∉ rest) :
    remainder (front ++ ')' :: rest) = rest := by
  have hback : (front ++ ')' :: rest).reverse = rest.reverse ++ ')' :: front.reverse := by simp
  rw [remainder, hback, takeWhile_cut (by rwa [List.mem_reverse]), List.reverse_reverse]

theorem LineText.remainder_body (written : LineText) (hrest : ')' ∉ rest) :
    remainder (written.body ++ rest) = rest := by
  rw [body_append, ← List.cons_append, ← List.append_assoc]
  exact remainder_cut _ hrest

theorem LineText.remainder_text (written : LineText) :
    remainder written.text = written.after.val :=
  written.remainder_body (written.after.property.not_mem (by decide))

/-- A line is accepted if and only if it is written from a definition up to its last closing
parenthesis; whatever stands behind it is ignored.  All other lines are refused with an error of the
catalog.  So a line means what is written on all of it, or nothing, if and only if it is refused or
has only blanks behind the last closing parenthesis. -/
theorem accepts_ignoring_rest (line : String) :
    (∀ definition, parse line = .ok definition ↔
      ∃ written : LineText, ∃ rest, ')' ∉ rest ∧ line.toList = written.body ++ rest ∧
        written.definition = definition) ∧
    (∀ error, parse line = .error error → Refused line error) ∧
    ((∀ definition, parse line = .ok definition ↔
        ∃ written : LineText, line.toList = written.text ∧ written.definition = definition) ↔
      ((∃ definition, parse line = .ok definition) → IsBlanks (remainder line.toList))) := by
  refine ⟨fun _ => parse_eq_ok_iff, fun _ => refused_parse, ?_, fun hblanks definition => ?_⟩
  · rintro hwhole ⟨definition, hparse⟩
    obtain ⟨written, hline, -⟩ := (hwhole definition).mp hparse
    rw [hline, written.remainder_text]
    exact written.after.property
  · constructor
    · intro hparse
      obtain ⟨written, rest, hrest, hline, rfl⟩ := parse_eq_ok_iff.mp hparse
      have hbehind := hblanks ⟨_, hparse⟩
      rw [hline, written.remainder_body hrest] at hbehind
      exact ⟨{ written with after := ⟨rest, hbehind⟩ }, hline, rfl⟩
    · rintro ⟨written, hline, rfl⟩
      exact parse_eq_ok_iff.mpr
        ⟨written, _, written.after.property.not_mem (by decide), hline, rfl⟩

theorem accepts_ignoring_rest_sample :
    (∃ written : LineText, ∃ rest, ')' ∉ rest ∧
      "users (id int), age int".toList = written.body ++ rest ∧
        written.definition = ⟨"users", ⟨[⟨.int, "id"⟩]⟩, none⟩) ∧
    Refused "users (id float)" (.catalog (.unknownType "float" "users (id float)")) ∧
    ∃ written : LineText, "users(id Int pk) ".toList = written.text ∧
      written.definition = ⟨"users", ⟨[⟨.int, "id"⟩]⟩, some "id"⟩ :=
  ⟨((accepts_ignoring_rest _).1 _).mp rfl, (accepts_ignoring_rest _).2.1 _ rfl,
    (((accepts_ignoring_rest _).2.2.mpr fun _ => by decide) _).mp rfl⟩

/-- The second column stands behind the closing parenthesis: it is not in the table, and nobody is
told. -/
theorem trailing_column_ignored :
    parse "users (id int), age int" = .ok ⟨"users", ⟨[⟨.int, "id"⟩]⟩, none⟩ ∧
      ¬ ∃ written : LineText, "users (id int), age int".toList = written.text := by
  refine ⟨rfl, ?_⟩
  rintro ⟨written, hline⟩
  have hrest : remainder "users (id int), age int".toList = ", age int".toList := by decide
  rw [hline, written.remainder_text] at hrest
  exact written.after.property.not_mem (c := ',') (by decide) (by rw [hrest]; decide)

end HeapStore.CatalogLine
