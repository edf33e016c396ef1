/-
  Decimal numerals: natural numbers written in digits, and the forms of a decimal number.
-/
namespace AlterScript

namespace Text

/-- The number of a decimal digit. -/
def digit? (c : Char) : Option Nat := if c.isDigit then some (c.toNat - 48) else none

/-- The value of a row of decimal digits, read on from `n`. -/
def digitsFrom (n : Nat) : List Char → Option Nat
  | [] => some n
  | c :: r => (digit? c).bind fun d => digitsFrom (10 * n + d) r

/-- A natural number below `bound`, written as digits with an optional plus sign. -/
def naturalBelow (bound : Nat) (cs : List Char) : Option Nat :=
  let digits := match cs with
    | '+' :: r => r
    | r => r
  if digits.isEmpty then none
  else (digitsFrom 0 digits).bind fun n => if n < bound then some n else none

/-- A natural number of 32 bits. -/
def natural32? (s : String) : Option Nat := naturalBelow (Nat.pow 2 32) s.toList

/-- What follows an optional sign. -/
def unsigned : List Char → List Char
  | '+' :: r => r
  | '-' :: r => r
  | r => r

/-- Whether a text is an exponent mark with a signed row of digits, or nothing. -/
def isExponent : List Char → Bool
  | [] => true
  | c :: r =>
    let digits := unsigned r
    (c == 'e' || c == 'E') && !digits.isEmpty && digits.all Char.isDigit

/-- Whether a text is a decimal number: digits with at most one point among or beside them, a
    sign before and an exponent after them. -/
def isDecimal (s : String) : Bool :=
  let cs := unsigned s.toList
  let whole := cs.takeWhile Char.isDigit
  match cs.dropWhile Char.isDigit with
  | '.' :: r =>
    let part := r.takeWhile Char.isDigit
    !(whole.isEmpty && part.isEmpty) && isExponent (r.dropWhile Char.isDigit)
  | r => !whole.isEmpty && isExponent r

end Text

end AlterScript
