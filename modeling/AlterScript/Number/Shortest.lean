/-
  The text of a floating-point number: the fewest decimal digits that read back as the number.

  A decimal reads back as the number when it lies between the midpoints to the two
  neighbours, the midpoints included for an even mantissa. Grids of powers of ten are tried from
  coarse to fine, on each the two points beside the number.
-/
import AlterScript.Number.Binary64

namespace AlterScript

namespace Binary64

/-! ## Digits -/

/-- Compares `a · 10 ^ g` with `n · 2 ^ e`. -/
def compareTen (a : Nat) (g : Int) (n : Nat) (e : Int) : Ordering :=
  let left := a * Nat.pow 10 g.toNat * Nat.pow 2 (-e).toNat
  let right := n * Nat.pow 2 e.toNat * Nat.pow 10 (-g).toNat
  compare left right

/-- Whether `a · 10 ^ g` reads back as the number. -/
def readsAs (x : Binary64) (a : Nat) (g : Int) : Bool :=
  let low := if x.mantissa = Nat.pow 2 52 ∧ minExponent < x.exponent then 4 * x.mantissa - 1
    else 4 * x.mantissa - 2
  let above := compareTen a g low (x.exponent - 2)
  let below := compareTen a g (4 * x.mantissa + 2) (x.exponent - 2)
  if x.mantissa % 2 = 0 then above != .lt && below != .gt else above == .gt && below == .lt

/-- The multiple of `10 ^ g` next to the number, if one reads back as it: the nearer of the two
    beside it, the even one from the middle. -/
def onGrid (x : Binary64) (g : Int) : Option Nat :=
  let a := (x.mantissa * Nat.pow 2 x.exponent.toNat * Nat.pow 10 (-g).toNat)
    / (Nat.pow 2 (-x.exponent).toNat * Nat.pow 10 g.toNat)
  match readsAs x a g, readsAs x (a + 1) g with
  | true, false => some a
  | false, true => some (a + 1)
  | false, false => none
  | true, true =>
    match compareTen (2 * a + 1) g (2 * x.mantissa) x.exponent with
    | .lt => some (a + 1)
    | .gt => some a
    | .eq => some (if a % 2 = 0 then a else a + 1)

/-- A power of ten above the number. -/
def coarsest (x : Binary64) : Int := ((x.mantissa.log2 : Int) + 1 + x.exponent) * 30103 / 100000 + 2

/-- The shortest digits and the power of ten of the last of them. -/
def shortest (x : Binary64) : Nat × Int :=
  ((List.range 24).findSome? fun (i : Nat) =>
    let g := coarsest x - i
    (onGrid x g).map fun a => (a, g)).getD (0, 0)

/-! ## Text -/

/-- Digits with the power of ten `e` of the first: positional from a hundred-thousandth up to
    below `10 ^ 16`, with a digit behind the point; else one digit before the point and a signed
    exponent. -/
def layOut (digits : List Char) (e : Int) : List Char :=
  if e < -5 ∨ 16 ≤ e then
    let sign := if e < 0 then '-' else '+'
    let tail := match digits.drop 1 with
      | [] => []
      | r => '.' :: r
    digits.take 1 ++ tail ++ 'e' :: sign :: Nat.toDigits 10 e.natAbs
  else if e < 0 then
    '0' :: '.' :: List.replicate ((-e).toNat - 1) '0' ++ digits
  else
    let whole := e.toNat + 1
    let part := digits.drop whole
    digits.take whole ++ List.replicate (whole - digits.length) '0'
      ++ '.' :: (if part.isEmpty then ['0'] else part)

/-- The text of a number; zero keeps its sign. -/
def text (x : Binary64) : String :=
  let s := shortest x
  let digits := Nat.toDigits 10 s.1
  let body := if x.mantissa = 0 then ['0', '.', '0']
    else layOut digits (s.2 + digits.length - 1)
  String.ofList (if x.negative then '-' :: body else body)

end Binary64

end AlterScript
