import RubyDoc.Value
import RubyDoc.Yaml.Document
import RubyDoc.Yaml.Node.Basic

/-!
# Scalars

A plain scalar stands for null, a truth value, a number, a date or its own
text; which of them shows in how it is written. Another matter is the value
that a scalar with a tag stands for: a tag may be given to any text, and then
the text may be one that the tag has no value for.
-/

namespace RubyDoc.Yaml

/-- The plain scalars that stand for a truth value. -/
def truthWords : List String :=
  ["yes", "Yes", "YES", "no", "No", "NO", "true", "True", "TRUE", "false", "False", "FALSE",
    "on", "On", "ON", "off", "Off", "OFF"]

/-- The plain scalars that stand for null. -/
def nullWords : List String := ["", "~", "null", "Null", "NULL"]

/-- What is behind a sign, if there is one. -/
def unsigned : List Char → List Char
  | '-' :: cs | '+' :: cs => cs
  | cs => cs

/-- Whether a character is a digit or an underscore. -/
def isDigitOrLine (c : Char) : Bool := c.isDigit || c == '_'

/-- Whether a text is a part of a number in base sixty behind a colon. -/
def isSixtieth (cs : List Char) : Bool :=
  match cs with
  | [d] => d.isDigit
  | [t, d] => '0' ≤ t && t ≤ '5' && d.isDigit
  | _ => false

/-- Cut a list at every colon. -/
def cutAtColons : List Char → List (List Char)
  | [] => [[]]
  | c :: cs =>
    if c == ':' then [] :: cutAtColons cs
    else match cutAtColons cs with
      | [] => [[c]]
      | first :: others => (c :: first) :: others

/-- Whether a text has the form of a whole number: binary, octal, decimal,
hexadecimal, or in base sixty. -/
def isIntForm (cs : List Char) : Bool :=
  match unsigned cs with
  | ['0'] => true
  | '0' :: 'b' :: digits =>
    !digits.isEmpty && digits.all fun c => c == '0' || c == '1' || c == '_'
  | '0' :: 'x' :: digits =>
    !digits.isEmpty && digits.all fun c =>
      isDigitOrLine c || ('a' ≤ c && c ≤ 'f') || ('A' ≤ c && c ≤ 'F')
  | '0' :: digits => digits.all fun c => ('0' ≤ c && c ≤ '7') || c == '_'
  | first :: rest =>
    first.isDigit &&
      match cutAtColons rest with
      | [] => false
      | digits :: parts => digits.all isDigitOrLine && parts.all isSixtieth
  | [] => false

/-- Whether a text is nothing or an exponent, which has a sign. -/
def isExponentOrNone : List Char → Bool
  | [] => true
  | e :: sign :: digits =>
    (e == 'e' || e == 'E') && (sign == '-' || sign == '+') && !digits.isEmpty &&
      digits.all Char.isDigit
  | _ => false

/-- Whether a text is digits behind a point, and maybe an exponent. -/
def isFraction (cs : List Char) : Bool := isExponentOrNone (cs.dropWhile isDigitOrLine)

/-- Whether a text has the form of a number with a point. -/
def isRealForm (cs : List Char) : Bool :=
  let bare := unsigned cs
  let whole := bare.takeWhile (· != '.')
  let fraction := (bare.dropWhile (· != '.')).drop 1
  let hasPoint := bare.contains '.'
  let isSixty := match cutAtColons whole with
    | first :: parts =>
      first.head?.any Char.isDigit && first.all isDigitOrLine && !parts.isEmpty &&
        parts.all isSixtieth && fraction.all isDigitOrLine
    | [] => false
  let isDecimal := whole.head?.any Char.isDigit && whole.all isDigitOrLine && isFraction fraction
  let isBareFraction := cs.head? == some '.' && fraction.head?.any Char.isDigit &&
    isFraction fraction
  hasPoint && (isDecimal || isSixty || isBareFraction) ||
    [".inf", ".Inf", ".INF"].contains (String.ofList bare) ||
    [".nan", ".NaN", ".NAN"].contains (String.ofList cs)

/-- A date, and a time of day if there is one. -/
structure DateParts where
  /-- The digits of the year, the month and the day. -/
  date : List (List Char)
  /-- The digits of the hour, the minute and the second. -/
  time : Option (List (List Char))
  /-- The digits of the fraction of a second. -/
  fraction : List Char := []
  /-- How many minutes the time is ahead of universal time. -/
  offset : Option Int := none

/-- Take one or two digits. -/
def oneOrTwo? : List Char → Option (List Char × List Char)
  | a :: b :: rest =>
    if a.isDigit then if b.isDigit then some ([a, b], rest) else some ([a], b :: rest) else none
  | [a] => if a.isDigit then some ([a], []) else none
  | [] => none

/-- Take a character. -/
def char? (c : Char) : List Char → Option (List Char)
  | [] => none
  | first :: rest => if first == c then some rest else none

/-- Take some digits of a given number. -/
def exactly? (n : Nat) (cs : List Char) : Option (List Char × List Char) :=
  let taken := cs.take n
  if taken.length == n && taken.all Char.isDigit then some (taken, cs.drop n) else none

/-- Read the end of a time: nothing, or an offset with blanks before it. -/
def offset? (cs : List Char) : Option (Option Int) :=
  if cs.isEmpty then some none
  else match cs.dropWhile fun c => c == ' ' || c == '\t' with
    | ['Z'] => some (some 0)
    | sign :: rest =>
      if sign == '-' || sign == '+' then do
        let (hours, rest) ← oneOrTwo? rest
        let minutes ← if rest.isEmpty then some [] else do
          let (minutes, rest) ← exactly? 2 (← char? ':' rest)
          if rest.isEmpty then some minutes else none
        let n : Int := 60 * Text.naturalOf hours + Text.naturalOf minutes
        return some (if sign == '-' then -n else n)
      else none
    | [] => none

/-- Take what separates a date from a time: a letter or blanks. -/
def timeSeparator? : List Char → Option (List Char)
  | 'T' :: rest | 't' :: rest => some rest
  | cs =>
    let rest := cs.dropWhile fun c => c == ' ' || c == '\t'
    if rest.length < cs.length then some rest else none

/-- Read a date with or without a time. -/
def dateParts? (cs : List Char) : Option DateParts := do
  let (year, rest) ← exactly? 4 cs
  let (month, rest) ← oneOrTwo? (← char? '-' rest)
  let (day, rest) ← oneOrTwo? (← char? '-' rest)
  let date := [year, month, day]
  if rest.isEmpty then return { date, time := none }
  let (hour, rest) ← oneOrTwo? (← timeSeparator? rest)
  let (minute, rest) ← exactly? 2 (← char? ':' rest)
  let (second, rest) ← exactly? 2 (← char? ':' rest)
  let (fraction, rest) := match rest with
    | '.' :: rest => (rest.takeWhile Char.isDigit, rest.dropWhile Char.isDigit)
    | _ => ([], rest)
  return { date, time := some [hour, minute, second], fraction, offset := ← offset? rest }

/-- Whether a text has the form of a date; one without a time writes the month
and the day with two digits. -/
def isDateForm (cs : List Char) : Bool :=
  match dateParts? cs with
  | some parts => parts.time.isSome || parts.date.map List.length == [4, 2, 2]
  | none => false

/-- Leave out a newline at the end. -/
def withoutFinalNewline (cs : List Char) : List Char :=
  if cs.getLast? == some '\n' then cs.dropLast else cs

/-- The tag that a plain scalar has by its form. -/
def implicitTag (text : String) : Tag :=
  let cs := withoutFinalNewline text.toList
  let bare := String.ofList cs
  if truthWords.contains bare then .bool
  else if isRealForm cs then .real
  else if isIntForm cs then .int
  else if bare == "<<" then .merge
  else if nullWords.contains bare && (bare != "" || text == "") then .null
  else if isDateForm cs then .timestamp
  else if bare == "=" then .content
  else .text

/-- The truth value that a word in any case stands for. -/
def boolOf (text : String) : Except Fault Bool :=
  let word := String.ofList (text.toList.map Char.toLower)
  if ["yes", "true", "on"].contains word then .ok true
  else if ["no", "false", "off"].contains word then .ok false
  else .error .unknownWord

/-- The value of a digit in a base of at most sixteen. -/
def digitValue? (base : Nat) (c : Char) : Option Nat :=
  let v := if c.isDigit then c.toNat - 48
    else if 'a' ≤ c && c ≤ 'f' then c.toNat - 87
    else if 'A' ≤ c && c ≤ 'F' then c.toNat - 55
    else 16
  if v < base then some v else none

/-- Drop the blanks at both ends. -/
def trimmed (cs : List Char) : List Char := Text.trim cs

/-- The whole number that digits of a base write, maybe with a sign and a mark of
the base in front. Decimal numbers are limited in length. -/
def numberIn (base : Nat) (cs : List Char) : Except Fault Int :=
  let cs := trimmed cs
  let digits := unsigned cs
  let digits := match digits with
    | '0' :: mark :: rest =>
      let marks := if base == 2 then ['b', 'B'] else if base == 8 then ['o', 'O']
        else if base == 16 then ['x', 'X'] else []
      if marks.contains mark then rest else digits
    | _ => digits
  if digits.isEmpty || (base == 10 && Value.maxDigits < digits.length) then .error .badValue
  else match digits.foldlM (fun n c => (digitValue? base c).map fun d => n * base + d) 0 with
    | some n => .ok (if cs.head? == some '-' then -(n : Int) else (n : Int))
    | none => .error .badValue

/-- The whole number that a text writes. Underscores are left out. -/
def intOf (text : String) : Except Fault Int :=
  let cs := text.toList.filter (· != '_')
  let digits := unsigned cs
  let size : Except Fault Int := match digits with
    | ['0'] => .ok 0
    | '0' :: 'b' :: rest => numberIn 2 rest
    | '0' :: 'x' :: rest => numberIn 16 rest
    | '0' :: _ => numberIn 8 digits
    | _ =>
      if digits.contains ':' then do
        let parts ← (cutAtColons digits).mapM (numberIn 10)
        return parts.foldl (fun n part => n * 60 + part) 0
      else numberIn 10 digits
  match cs with
  | [] => .error .emptyNumber
  | sign :: rest =>
    if rest.isEmpty && (sign == '-' || sign == '+') then .error .emptyNumber
    else size.map fun n => if sign == '-' then -n else n

/-- The number that a decimal in writing is nearest to: digits with a point
among them or not, and maybe an exponent. -/
def decimalOf? (cs : List Char) : Option Binary64 :=
  let bare := unsigned cs
  let negative := cs.head? == some '-'
  let word := String.ofList bare
  if ["inf", "infinity"].contains word then some (.infinite negative)
  else if word == "nan" then some .nan
  else
    let isMark (c : Char) : Bool := c == 'e'
    let mantissa := bare.takeWhile fun c => !isMark c
    let whole := mantissa.takeWhile (· != '.')
    let fraction := (mantissa.dropWhile (· != '.')).drop 1
    let digits := whole ++ fraction
    let exponent? : Option Int := match bare.dropWhile fun c => !isMark c with
      | [] => some 0
      | _ :: sign :: rest =>
        let digits := unsigned (sign :: rest)
        if digits.isEmpty || !digits.all Char.isDigit then none
        else
          let n := Text.naturalOf (digits.dropWhile (· == '0') |>.take 9)
          some (if sign == '-' then -(n : Int) else (n : Int))
      | [_] => none
    if digits.isEmpty || !digits.all Char.isDigit then none
    else exponent?.map fun e =>
      .ofDecimal negative (Text.naturalOf digits) (e - (fraction.length : Int))

/-- A decimal in writing with blanks around it. -/
def realPart (cs : List Char) : Except Fault Binary64 :=
  (decimalOf? (trimmed cs)).elim (.error .badValue) .ok

/-- The number with a fraction that a text writes. Underscores are left out. -/
def realOf (text : String) : Except Fault Binary64 :=
  let cs := (text.toList.filter (· != '_')).map Char.toLower
  let negative := cs.head? == some '-'
  let bare := unsigned cs
  let size : Except Fault Binary64 :=
    if bare == ".inf".toList then .ok (.infinite false)
    else if bare == ".nan".toList then .ok .nan
    else if bare.contains ':' then do
      let parts ← (cutAtColons bare).mapM realPart
      return (parts.reverse.foldl
        (fun (sum, base) part => (sum.plus (part.times (.ofNat base)), base * 60))
        (Binary64.zero false, 1)).1
    else realPart bare
  if cs.isEmpty || bare.isEmpty then .error .emptyNumber
  else size.map fun x => if negative then x.negate else x

/-- The date that a text writes. -/
def dateOf (text : String) : Except Fault Value :=
  match dateParts? (withoutFinalNewline text.toList) with
  | none => .error .noDate
  | some parts =>
    match parts.date.map Text.naturalOf, parts.time.map (List.map Text.naturalOf) with
    | [year, month, day], none =>
      let d : Date := ⟨year, month, day⟩
      if d.isValid then .ok (.date d) else .error .badValue
    | [year, month, day], some [hour, minute, second] =>
      let digits := parts.fraction.take 6
      let micro := Text.naturalOf (digits ++ List.replicate (6 - digits.length) '0')
      let m : Moment := ⟨⟨year, month, day⟩, hour, minute, second, micro, parts.offset⟩
      if m.isValid then .ok (.moment m) else .error .badValue
    | _, _ => .error .noDate

/-- The value of a character of base 64. -/
def sextet? (c : Char) : Option Nat :=
  if 'A' ≤ c && c ≤ 'Z' then some (c.toNat - 65)
  else if 'a' ≤ c && c ≤ 'z' then some (c.toNat - 71)
  else if c.isDigit then some (c.toNat + 4)
  else if c == '+' then some 62
  else if c == '/' then some 63
  else none

/-- Decode base 64. The numbers are the place in a group of four, the bits left
over, and the equals signs in a row. Other characters say nothing, and a full
group of equals signs ends the text. -/
def decode64 : Nat → Nat → Nat → List Char → Option (List UInt8)
  | place, _, _, [] => if place == 0 then some [] else none
  | place, left, pads, c :: cs =>
    if c == '=' then
      if 2 ≤ place then
        if 4 ≤ place + pads + 1 then some [] else decode64 place left (pads + 1) cs
      else decode64 place left pads cs
    else match sextet? c with
      | none => decode64 place left pads cs
      | some v =>
        let byte (n : Nat) : UInt8 := n.toUInt8
        match place with
        | 0 => decode64 1 v 0 cs
        | 1 => (decode64 2 (v % 16) 0 cs).map (byte (left * 4 + v / 16) :: ·)
        | 2 => (decode64 3 (v % 4) 0 cs).map (byte (left * 16 + v / 4) :: ·)
        | _ => (decode64 0 0 0 cs).map (byte (left * 64 + v) :: ·)

/-- The bytes that a text writes in base 64. -/
def bytesOf (text : String) : Except Fault (List UInt8) :=
  if text.toList.all fun c => c.toNat < 128 then
    (decode64 0 0 0 text.toList).elim (.error .malformed) .ok
  else .error .malformed

/-- The value that a text stands for under a tag. -/
def scalarValue (tag : Tag) (text : String) : Except Fault Value :=
  match tag with
  | .null => .ok .null
  | .bool => (boolOf text).map .bool
  | .int => (intOf text).map .int
  | .real => (realOf text).map .real
  | .binary => (bytesOf text).map .bytes
  | .timestamp => dateOf text
  | .text => .ok (.text text)
  | _ => .error .malformed

end RubyDoc.Yaml
