/-
  Reading JSON text.

  A reader takes the characters that are left and gives a value with what is left behind it. Arrays
  and objects may be nested to a given depth. Of an entry that an object holds twice, the first
  place and the last value are kept.
-/
import AlterScript.Json.Basic
import AlterScript.Text.Numeral

namespace AlterScript

namespace Json

/-- A value that was read, with the characters behind it. -/
abbrev Read (α : Type) := Option (α × List Char)

/-- Skips the four blank characters of the format. -/
def skip (cs : List Char) : List Char :=
  cs.dropWhile fun c => c == ' ' || c == '\n' || c == '\t' || c == '\r'

/-! ## Strings -/

def hexDigit? (c : Char) : Option Nat :=
  if c.isDigit then some (c.toNat - 48)
  else if 'a' ≤ c ∧ c ≤ 'f' then some (c.toNat - 87)
  else if 'A' ≤ c ∧ c ≤ 'F' then some (c.toNat - 55)
  else none

/-- A code unit of four hexadecimal digits. -/
def unit? (a b c d : Char) : Option Nat := do
  let a ← hexDigit? a
  let b ← hexDigit? b
  let c ← hexDigit? c
  let d ← hexDigit? d
  return ((a * 16 + b) * 16 + c) * 16 + d

def isHighSurrogate (n : Nat) : Bool := 0xD800 ≤ n && n < 0xDC00

def isLowSurrogate (n : Nat) : Bool := 0xDC00 ≤ n && n < 0xE000

/-- The character that a letter behind a backslash stands for. -/
def escape? : Char → Option Char
  | '"' => some '"'
  | '\\' => some '\\'
  | '/' => some '/'
  | 'b' => some '\x08'
  | 'f' => some '\x0c'
  | 'n' => some '\n'
  | 'r' => some '\r'
  | 't' => some '\t'
  | _ => none

/-- The characters up to the closing quote. A surrogate counts only as half of a pair. -/
def stringBody : List Char → Read (List Char)
  | [] => none
  | '"' :: r => some ([], r)
  | '\\' :: 'u' :: a :: b :: c :: d :: r =>
    match unit? a b c d with
    | none => none
    | some n =>
      if isLowSurrogate n then none
      else if isHighSurrogate n then
        match r with
        | '\\' :: 'u' :: e :: f :: g :: h :: r' =>
          match unit? e f g h with
          | none => none
          | some m =>
            if isLowSurrogate m then
              let char := Char.ofNat (0x10000 + (n - 0xD800) * 0x400 + (m - 0xDC00))
              (stringBody r').map fun p => (char :: p.1, p.2)
            else none
        | _ => none
      else (stringBody r).map fun p => (Char.ofNat n :: p.1, p.2)
  | '\\' :: e :: r =>
    match escape? e with
    | none => none
    | some c => (stringBody r).map fun p => (c :: p.1, p.2)
  | c :: r =>
    if c == '\\' || c.toNat < 0x20 then none else (stringBody r).map fun p => (c :: p.1, p.2)

/-- A string from its opening quote on. -/
def string : List Char → Read String
  | '"' :: r => (stringBody r).map fun p => (String.ofList p.1, p.2)
  | _ => none

/-! ## Numbers -/

/-- Reads digits onto a significand as long as it has 64 bits. -/
def significand (n : Nat) : List Char → Nat × List Char
  | [] => (n, [])
  | c :: r =>
    match Text.digit? c with
    | none => (n, c :: r)
    | some d => if 10 * n + d < Nat.pow 2 64 then significand (10 * n + d) r else (n, c :: r)

/-- An exponent of ten behind its mark: digits with an optional sign. -/
def exponent (cs : List Char) : Read Int :=
  let digits := (Text.unsigned cs).takeWhile Char.isDigit
  if digits.isEmpty then none
  else
    (Text.digitsFrom 0 digits).map fun n =>
      (if cs.head? = some '-' then -(n : Int) else n, (Text.unsigned cs).dropWhile Char.isDigit)

/-- An integer, if 64 bits hold it; there is no negative integer zero. -/
def integer (negative : Bool) (n : Nat) : Option Number :=
  if negative then
    if 0 < n ∧ n ≤ Nat.pow 2 63 then some (.int (-(n : Int)))
    else (Binary64.ofRatio true n 1).map .float
  else some (.int n)

/-- A floating-point number, rounded from its significand first and then scaled. -/
def floating (negative : Bool) (n : Nat) (e : Int) : Option Number :=
  ((Binary64.ofRatio negative n 1).bind (·.shiftTen e)).map .float

/-- A number behind its sign. Digits that the significand cannot take are dropped, and before the
    point they count for the exponent. -/
def unsignedNumber (negative : Bool) (cs : List Char) : Read Number :=
  let whole : Read Nat := match cs with
    | '0' :: r => if (r.head?.map Char.isDigit).getD false then none else some (0, r)
    | c :: _ => if c.isDigit then some (significand 0 cs) else none
    | [] => none
  whole.bind fun (n, r) =>
    let dropped := r.takeWhile Char.isDigit
    let scale : Int := dropped.length
    let withExponent (n : Nat) (e : Int) : List Char → Read Number
      | 'e' :: r | 'E' :: r =>
        (exponent r).bind fun (x, r) => (floating negative n (e + x)).map (·, r)
      | r => (floating negative n e).map (·, r)
    match r.dropWhile Char.isDigit with
    | '.' :: r =>
      if (r.head?.map Char.isDigit).getD false then
        let (m, s) := significand n r
        withExponent m (scale - (r.length - s.length : Nat)) (s.dropWhile Char.isDigit)
      else none
    | r =>
      let isInteger := dropped.isEmpty && r.head? != some 'e' && r.head? != some 'E'
      if isInteger then (integer negative n).map (·, r) else withExponent n scale r

def number : List Char → Read Number
  | '-' :: r => unsignedNumber true r
  | r => unsignedNumber false r

/-! ## Values -/

/-- A value that is neither an array nor an object. -/
def scalar : List Char → Read Json
  | 'n' :: 'u' :: 'l' :: 'l' :: r => some (null, r)
  | 't' :: 'r' :: 'u' :: 'e' :: r => some (bool true, r)
  | 'f' :: 'a' :: 'l' :: 's' :: 'e' :: r => some (bool false, r)
  | '"' :: r => (string ('"' :: r)).map fun p => (str p.1, p.2)
  | r => (number r).map fun p => (num p.1, p.2)

/-- Items behind each other up to the closing bracket, at most `n` of them. -/
def items (item : List Char → Read Json) : Nat → List Char → Read (List Json)
  | 0, _ => none
  | n + 1, cs =>
    (item cs).bind fun (j, r) =>
      match skip r with
      | ',' :: r => (items item n r).map fun p => (j :: p.1, p.2)
      | ']' :: r => some ([j], r)
      | _ => none

/-- A name, a colon and a value. -/
def member (item : List Char → Read Json) (cs : List Char) : Read (String × Json) :=
  (string (skip cs)).bind fun (k, r) =>
    match skip r with
    | ':' :: r => (item r).map fun p => ((k, p.1), p.2)
    | _ => none

/-- Members behind each other up to the closing brace, at most `n` of them. -/
def members (item : List Char → Read Json) : Nat → List Char → Read (List (String × Json))
  | 0, _ => none
  | n + 1, cs =>
    (member item cs).bind fun (m, r) =>
      match skip r with
      | ',' :: r => (members item n r).map fun p => (m :: p.1, p.2)
      | '}' :: r => some ([m], r)
      | _ => none

/-- The members of an object behind its opening brace, as they stand. -/
def objectBody (item : List Char → Read Json) (cs : List Char) : Read (List (String × Json)) :=
  match skip cs with
  | '}' :: r => some ([], r)
  | r => members item r.length r

/-- The items of an array behind its opening bracket. -/
def arrayBody (item : List Char → Read Json) (cs : List Char) : Read (List Json) :=
  match skip cs with
  | ']' :: r => some ([], r)
  | r => items item r.length r

/-- A value in which arrays and objects are nested at most `depth` deep. -/
def value : Nat → List Char → Read Json
  | 0, cs => scalar (skip cs)
  | depth + 1, cs =>
    match skip cs with
    | '[' :: r => (arrayBody (value depth) r).map fun p => (arr p.1, p.2)
    | '{' :: r => (objectBody (value depth) r).map fun p => (obj (Entries.ofList p.1), p.2)
    | r => scalar r

/-- What was read, if only blanks follow. -/
def whole {α : Type} (read : Read α) : Option α :=
  read.bind fun (a, r) => if (skip r).isEmpty then some a else none

/-- How deep the arrays and objects of a file may be nested. -/
def maxDepth : Nat := 127

/-- The value that a text holds. -/
def ofText? (s : String) : Option Json := whole (value maxDepth s.toList)

/-- The members of the object that a text holds, repeated names included. -/
def membersOfText? (s : String) : Option (List (String × Json)) :=
  match skip s.toList with
  | '{' :: r => whole (objectBody (value (maxDepth - 1)) r)
  | _ => none

end Json

end AlterScript
