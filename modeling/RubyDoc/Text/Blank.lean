/-!
# Blank characters and trimming

A blank is one of twenty-nine separating code points. This module says which
they are and holds the operations that trim, drop or squeeze runs of them.
The operations work on character lists and are lifted to strings; what a
*word* is, and where lines end, is said elsewhere.
-/

namespace RubyDoc.Text

/-- A blank separates words: tab to carriage return, the four information
separators, the space, the next-line and no-break spaces, and the spaces of
the general punctuation and ideographic blocks. -/
def isBlank (c : Char) : Bool :=
  let n := c.toNat
  (9 ≤ n && n ≤ 13) || (28 ≤ n && n ≤ 32) || n == 0x85 || n == 0xA0 || n == 0x1680 ||
    (0x2000 ≤ n && n ≤ 0x200A) || n == 0x2028 || n == 0x2029 || n == 0x202F || n == 0x205F ||
    n == 0x3000

/-- Drop the blanks at the front. -/
def trimStart (cs : List Char) : List Char := cs.dropWhile isBlank

/-- Drop the blanks at the back. -/
def trimEnd (cs : List Char) : List Char := (cs.reverse.dropWhile isBlank).reverse

/-- Drop the blanks at both ends. -/
def trim (cs : List Char) : List Char := trimEnd (trimStart cs)

/-- A text without the blanks at its two ends. -/
def strip (s : String) : String := String.ofList (trim s.toList)

/-- A text without the blanks at its end. -/
def stripEnd (s : String) : String := String.ofList (trimEnd s.toList)

/-- True of a text that holds nothing but blanks, so also of the empty one. -/
def isBlankText (s : String) : Bool := s.toList.all isBlank

/-- A text with every blank left out. -/
def withoutBlanks (s : String) : String := String.ofList (s.toList.filter fun c => !isBlank c)

/-- Every run of blanks becomes one space. The flag says that the character
before was a blank, so that its space is written already. -/
def squeezeFrom : Bool → List Char → List Char
  | _, [] => []
  | inRun, c :: cs =>
    if isBlank c then
      if inRun then squeezeFrom true cs else ' ' :: squeezeFrom true cs
    else c :: squeezeFrom false cs

/-- A text in which every run of blanks is one space. -/
def squeeze (s : String) : String := String.ofList (squeezeFrom false s.toList)

/-- Every newline, with the blanks after it, becomes one space. The flag says
that such a run is being dropped. -/
def unbreakFrom : Bool → List Char → List Char
  | _, [] => []
  | dropping, c :: cs =>
    if dropping && isBlank c then unbreakFrom true cs
    else if c == '\n' then ' ' :: unbreakFrom true cs
    else c :: unbreakFrom false cs

/-- A text on one line as far as newlines go: each of them becomes one space
and takes the blanks after it along. -/
def unbreak (s : String) : String := String.ofList (unbreakFrom false s.toList)

/-- A text without the newlines at its two ends. -/
def stripNewlines (s : String) : String :=
  String.ofList
    ((((s.toList.dropWhile (· == '\n')).reverse).dropWhile (· == '\n')).reverse)

/-- True if the text begins with the given one. -/
def beginsWith (start s : String) : Bool := start.toList.isPrefixOf s.toList

/-- True if the text finishes with the given one. -/
def finishesWith (finish s : String) : Bool := finish.toList.isSuffixOf s.toList

/-- A text without the given beginning, or the text itself if it has another. -/
def withoutStart (start s : String) : String :=
  if beginsWith start s then String.ofList (s.toList.drop start.toList.length) else s

/-- A text without the given end, or the text itself if it has another. -/
def withoutEnd (finish s : String) : String :=
  if finishesWith finish s then
    String.ofList (s.toList.take (s.toList.length - finish.toList.length))
  else s

/-- The parts before and after the first space; the second is empty if there
is no space. -/
def cutAtSpace (s : String) : String × String :=
  (String.ofList (s.toList.takeWhile (· != ' ')),
    String.ofList ((s.toList.dropWhile (· != ' ')).drop 1))

@[simp] theorem toList_strip (s : String) : (strip s).toList = trim s.toList := by
  simp [strip]

@[simp] theorem toList_stripEnd (s : String) : (stripEnd s).toList = trimEnd s.toList := by
  simp [stripEnd]

@[simp] theorem toList_withoutBlanks (s : String) :
    (withoutBlanks s).toList = s.toList.filter fun c => !isBlank c := by
  simp [withoutBlanks]

/-- The space is a blank. -/
theorem isBlank_space : isBlank ' ' = true := by decide

/-- The newline is a blank. -/
theorem isBlank_newline : isBlank '\n' = true := by decide

end RubyDoc.Text
