import RubyDoc.Yaml.Token.Quoted

/-!
# Names, tags and directives

Nodes may be named by anchors, and anchored nodes be referred to. A tag says
what a node stands for; it is a short form and a suffix, or an address between
angle brackets. Directives stand in front of a document on lines of their own.
-/

namespace RubyDoc.Yaml

/-- Whether a character may stand in a name. -/
def isNameChar (c : Char) : Bool := c.isAlphanum || c == '-' || c == '_'

/-- Whether a character may stand in an address. -/
def isAddressChar (c : Char) : Bool :=
  c.isAlphanum || "-;/?:@&=+$,_.!~*'()[]%".toList.contains c

/-- Read a name behind its mark. -/
def nameAfterMark (c : Cursor) : Except Fault (String × Cursor) :=
  let (name, c) := c.advance.span isNameChar
  let endsName := endsWord c.peek || c.peek.any "?:,]\x7d%@`".toList.contains
  if name.isEmpty || !endsName then .error .malformed else .ok (String.ofList name, c)

/-- Read an anchor. -/
def anchor (c : Cursor) : Except Fault (Token × Cursor) :=
  (nameAfterMark c).map fun r => (.anchor r.1, r.2)

/-- Read a reference. -/
def reference (c : Cursor) : Except Fault (Token × Cursor) :=
  (nameAfterMark c).map fun r => (.reference r.1, r.2)

/-- Read a short form: a mark, and maybe a name and a second mark. -/
def shortForm (c : Cursor) : Except Fault (String × Cursor) :=
  if !c.isAt '!' then .error .malformed
  else
    let (name, after) := c.advance.span isNameChar
    if c.peekAt 1 == some ' ' then .ok ("!", c.advance)
    else if after.isAt '!' then .ok ("!" ++ String.ofList name ++ "!", after.advance)
    else .error .malformed

/-- Read a byte that is written with two hexadecimal digits behind a percent
sign. -/
def percentByte (c : Cursor) : Except Fault (UInt8 × Cursor) :=
  match c.rest with
  | '%' :: high :: low :: _ =>
    match hexNumber? [high, low] with
    | some n => .ok (n.toUInt8, c.advanceBy 3)
    | none => .error .malformed
  | _ => .error .malformed

/-- Read a row of such bytes. -/
def percentBytes : Nat → Cursor → Except Fault (List UInt8 × Cursor)
  | 0, _ => .error .malformed
  | fuel + 1, c =>
    if c.isAt '%' then do
      let (byte, c) ← percentByte c
      let (more, c) ← percentBytes fuel c
      return (byte :: more, c)
    else .ok ([], c)

/-- Read the characters of an address; bytes behind percent signs have to make
up characters. -/
def addressChars : Nat → Cursor → Except Fault (List Char × Cursor)
  | 0, _ => .error .malformed
  | fuel + 1, c =>
    let (text, c) := c.span fun char => isAddressChar char && char != '%'
    if c.isAt '%' then do
      let (bytes, c) ← percentBytes (c.rest.length + 1) c
      match String.fromUTF8? ⟨bytes.toArray⟩ with
      | none => .error .malformed
      | some decoded =>
        let (more, c) ← addressChars fuel c
        return (text ++ decoded.toList ++ more, c)
    else .ok (text, c)

/-- Read an address, which is not empty. -/
def address (c : Cursor) : Except Fault (String × Cursor) := do
  if !c.peek.any isAddressChar then throw .malformed
  let (text, after) ← addressChars (c.rest.length + 1) c
  return (String.ofList text, after)

/-- Whether a second mark stands in the word behind the first one. -/
def hasSecondMark (cs : List Char) : Bool :=
  (cs.takeWhile fun c => !endsField (some c)).contains '!'

/-- Read a tag. -/
def tag (c : Cursor) : Except Fault (Token × Cursor) := do
  let next := c.peekAt 1
  let (token, after) ← (
    if next == some '<' then do
      let (suffix, c) ← address (c.advanceBy 2)
      if c.isAt '>' then return (Token.tag none suffix, c.advance)
      throw .malformed
    else if endsWord next then return (Token.tag none "!", c.advance)
    else if hasSecondMark (c.rest.drop 1) then do
      let (handle, c) ← shortForm c
      let (suffix, c) ← address c
      return (Token.tag (some handle) suffix, c)
    else do
      let (suffix, c) ← address c.advance
      return (Token.tag (some "!") suffix, c) : Except Fault (Token × Cursor))
  if endsField after.peek then return (token, after) else throw .malformed

/-- Read a number of a version. -/
def versionNumber (c : Cursor) : Except Fault (Nat × Cursor) :=
  let (digits, c) := c.span Char.isDigit
  if digits.isEmpty then .error .malformed
  else if 4300 < digits.length then .error .badValue
  else .ok (digits.foldl (fun n d => n * 10 + (d.toNat - 48)) 0, c)

/-- Read what a directive of a name says. -/
def directiveValue (name : String) (c : Cursor) : Except Fault (Directive × Cursor) := do
  if name == "YAML" then
    let (major, c) ← versionNumber c.skipSpaces
    if !c.isAt '.' then throw .malformed
    let (_, c) ← versionNumber c.advance
    if endsField c.peek then return (.version major, c) else throw .malformed
  else if name == "TAG" then
    let (handle, c) ← shortForm c.skipSpaces
    if !c.isAt ' ' then throw .malformed
    let (expansion, c) ← address c.skipSpaces
    if endsField c.peek then return (.shorthand handle expansion, c) else throw .malformed
  else return (.reserved, c.skip fun char => !isBreak char)

/-- Read a directive with the rest of its line. -/
def directive (c : Cursor) : Except Fault (Token × Cursor) := do
  let (name, c) := c.advance.span isNameChar
  if name.isEmpty || !endsField c.peek then throw .malformed
  let (d, c) ← directiveValue (String.ofList name) c
  let c := c.skipSpaces.skipComment
  if endsLine c.peek then return (.directive d, c.lineBreak.2) else throw .malformed

end RubyDoc.Yaml
