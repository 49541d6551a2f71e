import RubyDoc.Binary64

/-!
# Numbers in writing

Whole numbers are written with a number of places, with a power of ten, or in
the plainer of these two ways with a number of digits that count. What is
rounded goes to the nearest number, and a half to the even digit. Long numbers
can be written in groups of digits.
-/

namespace RubyDoc.Text

/-- The number that decimal digits write. -/
def naturalOf (digits : List Char) : Nat :=
  digits.foldl (fun n c => n * 10 + (c.toNat - 48)) 0

/-- A number in writing. -/
structure Numeral where
  /-- The digits in front of the point. -/
  whole : List Char
  /-- All that stands behind them. -/
  rest : List Char := []
deriving DecidableEq

namespace Numeral

/-- All characters of a number in writing. -/
def chars (x : Numeral) : List Char := x.whole ++ x.rest

/-- Places behind a point. Without places there is a point only if it is kept. -/
def behindPoint (keepsPoint : Bool) (places : List Char) : List Char :=
  if places.isEmpty && !keepsPoint then [] else '.' :: places

/-- A whole number with a number of places. -/
def fixed (keepsPoint : Bool) (places n : Nat) : Numeral :=
  { whole := Nat.toDigits 10 n
    rest := behindPoint keepsPoint (List.replicate places '0') }

/-- The first digits of a whole number, rounded to their count, and the power of
ten that the first of them stands for. -/
def leading (count n : Nat) : List Char × Nat :=
  let digits := Nat.toDigits 10 n
  let excess := digits.length - count
  let rounded := Nat.toDigits 10 (Binary64.roundDiv n (Nat.pow 10 excess))
  let carried := rounded.length + excess - digits.length
  ((rounded ++ List.replicate (count - rounded.length) '0').take count,
    digits.length - 1 + carried)

/-- A power of ten in writing, of two digits at least. -/
def power (mark : Char) (order : Nat) : List Char :=
  let digits := Nat.toDigits 10 order
  mark :: '+' :: (List.replicate (2 - digits.length) '0' ++ digits)

/-- A whole number as one digit, a number of places, and a power of ten. -/
def scientific (keepsPoint : Bool) (mark : Char) (places n : Nat) : Numeral :=
  let (digits, order) := leading (places + 1) n
  { whole := digits.take 1
    rest := behindPoint keepsPoint (digits.drop 1) ++ power mark order }

/-- Leave out zeros at the end. -/
def withoutEndZeros (digits : List Char) : List Char :=
  (digits.reverse.dropWhile (· == '0')).reverse

/-- A whole number with a number of digits that count, one at least. A power of
ten is written only where the digits do not reach the point. Zeros at the end of
the places are kept where the point is. -/
def general (keepsPoint : Bool) (mark : Char) (count n : Nat) : Numeral :=
  let (digits, order) := leading (max count 1) n
  let trim := fun places => if keepsPoint then places else withoutEndZeros places
  if order < max count 1 then
    { whole := digits.take (order + 1)
      rest := behindPoint keepsPoint (trim (digits.drop (order + 1))) }
  else
    { whole := digits.take 1
      rest := behindPoint keepsPoint (trim (digits.drop 1)) ++ power mark order }

/-- Digits from the last one on in groups of a size, with zeros behind them up to
a width. The first argument bounds the number of groups. -/
def groupsFromEnd (separator : Char) (size : Nat) : Nat → Nat → List Char → List Char
  | 0, _, digits => digits
  | fuel + 1, width, digits =>
    let length := min size (max (max digits.length width) 1)
    let group := digits.take length ++ List.replicate (length - digits.length) '0'
    let rest := digits.drop length
    if rest.isEmpty && width ≤ length then group
    else group ++ separator :: groupsFromEnd separator size fuel (width - length - 1) rest

/-- Digits with zeros before them up to a width, in groups if there is a
separator. A separator that would come first has one more zero before it. -/
def grouped (separator : Option Char) (size width : Nat) (digits : List Char) : List Char :=
  match separator with
  | none => List.replicate (width - digits.length) '0' ++ digits
  | some mark =>
    (groupsFromEnd mark size (digits.length + width + 1) width digits.reverse).reverse

end Numeral

end RubyDoc.Text
