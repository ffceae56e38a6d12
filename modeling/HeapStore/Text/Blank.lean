import HeapStore.Text.CodeRange

/-!
# Blanks, words and pieces

A text is cut at separators (`pieces`), into words between blanks (`words`), or stripped of the
blanks at its ends (`trim`).  A blank is any character of the Unicode white space property, which
has ASCII blanks, the no-break space and the spaces of typography, but no zero-width characters.
-/

namespace HeapStore.Text

/-- White space: control blanks, the spaces, and the line and paragraph separators. -/
def blankRanges : List CodeRange :=
  [ (0x9, 0xD), (0x20, 0x20), (0x85, 0x85), (0xA0, 0xA0), (0x1680, 0x1680), (0x2000, 0x200A),
    (0x2028, 0x2029), (0x202F, 0x202F), (0x205F, 0x205F), (0x3000, 0x3000) ]

/-- The character is white space. -/
def isBlank (c : Char) : Bool :=
  inRanges blankRanges c

/-- The text without the blanks at both ends. -/
def trim (cs : List Char) : List Char :=
  ((cs.dropWhile isBlank).reverse.dropWhile isBlank).reverse

/-- The pieces between separators, in order; one more piece than there are separators. -/
def pieces (separates : Char → Bool) : List Char → List (List Char)
  | [] => [[]]
  | c :: rest =>
    if separates c then [] :: pieces separates rest
    else
      match pieces separates rest with
      | [] => [[c]]
      | piece :: others => (c :: piece) :: others

/-- The words of a text: its longest runs without a blank, in order. -/
def words (cs : List Char) : List (List Char) :=
  (pieces isBlank cs).filter (!·.isEmpty)

theorem pieces_ne_nil (separates : Char → Bool) (cs : List Char) : pieces separates cs ≠ [] := by
  cases cs with
  | nil => simp [pieces]
  | cons c rest =>
    unfold pieces
    split
    · simp
    · split <;> simp

end HeapStore.Text
