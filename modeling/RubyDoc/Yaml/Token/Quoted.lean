import RubyDoc.Yaml.Token.Basic

/-!
# Quoted scalars

A quoted scalar goes on to its closing mark. Line ends inside it fold: one is a
space, and of several the first is left out. A single-quoted scalar writes its
mark twice; a double-quoted one has escapes behind a backslash.
-/

namespace RubyDoc.Yaml

/-- What a letter behind a backslash stands for. -/
def escapedChar? : Char → Option Char
  | '0' => some '\x00'
  | 'a' => some '\x07'
  | 'b' => some '\x08'
  | 't' | '\t' => some '\t'
  | 'n' => some '\n'
  | 'v' => some '\x0b'
  | 'f' => some '\x0c'
  | 'r' => some '\r'
  | 'e' => some '\x1b'
  | ' ' => some ' '
  | '"' => some '"'
  | '\\' => some '\\'
  | '/' => some '/'
  | 'N' => some '\u0085'
  | '_' => some '\u00a0'
  | 'L' => some '\u2028'
  | 'P' => some '\u2029'
  | _ => none

/-- How many hexadecimal digits follow a letter behind a backslash. -/
def escapeWidth? : Char → Option Nat
  | 'x' => some 2
  | 'u' => some 4
  | 'U' => some 8
  | _ => none

/-- The value of a hexadecimal digit. -/
def hexDigit? (c : Char) : Option Nat :=
  if c.isDigit then some (c.toNat - 48)
  else if 'a' ≤ c && c ≤ 'f' then some (c.toNat - 87)
  else if 'A' ≤ c && c ≤ 'F' then some (c.toNat - 55)
  else none

/-- The number that some hexadecimal digits write. -/
def hexNumber? (cs : List Char) : Option Nat :=
  cs.foldlM (fun n c => (hexDigit? c).map fun d => n * 16 + d) 0

/-- The character of a code. -/
def charOfCode (code : Nat) : Except Fault Char :=
  if 0x7FFFFFFF < code then .error .codeTooLarge
  else if 0x10FFFF < code then .error .badValue
  else .ok (Char.ofNat code)

/-- Take the line ends that follow a first one, with the blanks before each. A
document mark may not begin a line. The number bounds the lines. -/
def moreBreaks : Nat → Cursor → Except Fault (List Char × Cursor)
  | 0, _ => .error .malformed
  | fuel + 1, c =>
    if c.isAtMark then .error .malformed
    else
      let c := c.skip isBlank
      if c.peek.any isBreak then
        let (first, c) := c.lineBreak
        (moreBreaks fuel c).map fun r => (first ++ r.1, r.2)
      else .ok ([], c)

/-- Read what an escape behind a backslash stands for. -/
def escape (c : Cursor) : Except Fault (List Char × Cursor) :=
  match c.rest with
  | [] => .error .malformed
  | letter :: rest =>
    match escapedChar? letter, escapeWidth? letter with
    | some char, _ => .ok ([char], c.advance)
    | none, some width =>
      if rest.length < width then .error .malformed
      else match hexNumber? (rest.take width) with
        | none => .error .malformed
        | some code => (charOfCode code).map fun char => ([char], c.advanceBy (width + 1))
    | none, none =>
      if isBreak letter then
        let c := c.lineBreak.2
        moreBreaks (c.rest.length + 1) c
      else .error .malformed

/-- Whether a character stands for itself in every quoted scalar. -/
def isOrdinary (c : Char) : Bool :=
  c != '\'' && c != '"' && c != '\\' && !isBlank c && !isBreak c

/-- Read up to a blank or the closing mark. -/
def quotedWord (isDouble : Bool) : Nat → Cursor → Except Fault (List Char × Cursor)
  | 0, _ => .error .malformed
  | fuel + 1, c =>
    let (text, c) := c.span isOrdinary
    let more (own : List Char) (c : Cursor) : Except Fault (List Char × Cursor) :=
      (quotedWord isDouble fuel c).map fun r => (text ++ own ++ r.1, r.2)
    match c.rest with
    | [] => .ok (text, c)
    | char :: rest =>
      if !isDouble && char == '\'' && rest.head? == some '\'' then more ['\''] (c.advanceBy 2)
      else if (isDouble && char == '\'') || (!isDouble && (char == '"' || char == '\\')) then
        more [char] c.advance
      else if isDouble && char == '\\' then
        (escape c.advance).bind fun (own, c) => more own c
      else .ok (text, c)

/-- Read the blanks inside a quoted scalar. -/
def quotedBlanks (c : Cursor) : Except Fault (List Char × Cursor) :=
  let (blanks, c) := c.span isBlank
  match c.peek with
  | none => .error .malformed
  | some char =>
    if isBreak char then
      let (first, c) := c.lineBreak
      (moreBreaks (c.rest.length + 1) c).map fun r => (foldBreaks first r.1, r.2)
    else .ok (blanks, c)

/-- Read words and blanks up to the closing mark, which is passed. -/
def quotedRest (mark : Char) : Nat → Cursor → Except Fault (List Char × Cursor)
  | 0, _ => .error .malformed
  | fuel + 1, c => do
    let (word, c) ← quotedWord (mark == '"') (c.rest.length + 1) c
    if c.isAt mark then return (word, c.advance)
    let (blanks, c) ← quotedBlanks c
    let (rest, c) ← quotedRest mark fuel c
    return (word ++ blanks ++ rest, c)

/-- Read a quoted scalar. -/
def quotedScalar (c : Cursor) : Except Fault (Token × Cursor) :=
  match c.peek with
  | none => .error .malformed
  | some mark =>
    (quotedRest mark (c.rest.length + 1) c.advance).map fun r =>
      (.scalar (String.ofList r.1) false, r.2)

end RubyDoc.Yaml
