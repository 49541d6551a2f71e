import RubyDoc.Text.Blank

/-!
# Lines of a text

A line ends at any of ten characters, and a carriage return takes a newline
after it along. A line end at the very end of the text opens no further line.
-/

namespace RubyDoc.Text

/-- A line break: newline, carriage return, vertical tab, form feed, the file,
group and record separators, next line, and the line and paragraph separators. -/
def isLineBreak (c : Char) : Bool :=
  let n := c.toNat
  (10 ≤ n && n ≤ 13) || (28 ≤ n && n ≤ 30) || n == 0x85 || n == 0x2028 || n == 0x2029

/-- Put an item in front of the first list; of no list it makes one. -/
def consFirst {α : Type} (c : α) : List (List α) → List (List α)
  | [] => [[c]]
  | first :: others => (c :: first) :: others

/-- The lines of a character list, without the characters that end them. -/
def splitLines : List Char → List (List Char)
  | [] => []
  | '\r' :: '\n' :: cs => [] :: splitLines cs
  | c :: cs => if isLineBreak c then [] :: splitLines cs else consFirst c (splitLines cs)

/-- The lines of a text, without the characters that end them. -/
def lines (s : String) : List String := (splitLines s.toList).map String.ofList

/-- Lines put together with one newline between two of them. -/
def joinLines (ls : List String) : String := String.intercalate "\n" ls

/-- Every line break is a blank. -/
theorem isBlank_of_isLineBreak (c : Char) (h : isLineBreak c = true) : isBlank c = true := by
  simp only [isLineBreak, isBlank, Bool.or_eq_true, Bool.and_eq_true, decide_eq_true_eq,
    beq_iff_eq] at h ⊢
  omega

/-- Newlines as a text file is read: a carriage return with a newline after it,
and a carriage return alone, become one newline. -/
def unifyNewlines : List Char → List Char
  | [] => []
  | '\r' :: '\n' :: cs => '\n' :: unifyNewlines cs
  | c :: cs => (if c == '\r' then '\n' else c) :: unifyNewlines cs

end RubyDoc.Text
