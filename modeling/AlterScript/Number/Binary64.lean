/-
  Finite numbers of 64-bit binary floating point, kept as exact values, and their rounded
  product and quotient.

  All arithmetic is on natural numbers: an operation computes the exact ratio and rounds it
  once, to the nearest number and from the middle to the even mantissa.
-/
namespace AlterScript

/-- A finite floating-point number, `± mantissa · 2 ^ exponent`, with the exponent as small as
    53 bits of mantissa and the least exponent allow. -/
structure Binary64 where
  negative : Bool
  mantissa : Nat
  exponent : Int
deriving DecidableEq, Repr

namespace Binary64

/-- The least exponent. -/
def minExponent : Int := -1074

/-- The greatest exponent. -/
def maxExponent : Int := 971

/-- Zero with a sign. -/
def zero (negative : Bool) : Binary64 := ⟨negative, 0, minExponent⟩

/-- Equal as numbers: the two zeros are equal. -/
def same (x y : Binary64) : Bool := (x.mantissa == 0 && y.mantissa == 0) || x == y

@[simp] theorem same_refl (x : Binary64) : x.same x = true := by simp [same]

/-! ## Rounding -/

/-- `num / den` rounded to the nearest natural number, from the middle to the even one. -/
def halfEven (num den : Nat) : Nat :=
  let q := num / den
  let r := num % den
  if den < 2 * r ∨ (2 * r = den ∧ q % 2 = 1) then q + 1 else q

/-- Numerator and denominator of `num / den · 2 ^ (-e)`. -/
def scaled (num den : Nat) (e : Int) : Nat × Nat :=
  if 0 ≤ e then (num, den * Nat.pow 2 e.toNat) else (num * Nat.pow 2 (-e).toNat, den)

/-- The exponent of the mantissa that has 53 bits, or the least exponent. -/
def exponentOf (num den : Nat) : Int :=
  let e : Int := (num.log2 : Int) - den.log2 - 52
  let s := scaled num den e
  max minExponent (if s.1 / s.2 < Nat.pow 2 52 then e - 1 else e)

/-- The number nearest to `num / den`; none when that lies beyond the greatest. -/
def ofRatio (negative : Bool) (num den : Nat) : Option Binary64 :=
  if num = 0 then some (zero negative)
  else
    let e := exponentOf num den
    let s := scaled num den e
    let m := halfEven s.1 s.2
    let r : Binary64 :=
      if m = Nat.pow 2 53 then ⟨negative, Nat.pow 2 52, e + 1⟩ else ⟨negative, m, e⟩
    if maxExponent < r.exponent then none else some r

/-- The number nearest to a natural number. -/
def ofNat? (n : Nat) : Option Binary64 := ofRatio false n 1

/-! ## Product and quotient -/

/-- `n · 2 ^ e` as numerator and denominator. -/
def ratio (n : Nat) (e : Int) : Nat × Nat := scaled n 1 (-e)

def mul (x y : Binary64) : Option Binary64 :=
  let r := ratio (x.mantissa * y.mantissa) (x.exponent + y.exponent)
  ofRatio (x.negative != y.negative) r.1 r.2

/-- The quotient; none when the divisor is zero or the quotient too great. -/
def div (x y : Binary64) : Option Binary64 :=
  if y.mantissa = 0 then none
  else
    let r := ratio 1 (x.exponent - y.exponent)
    ofRatio (x.negative != y.negative) (x.mantissa * r.1) (y.mantissa * r.2)

/-- The number nearest to `10 ^ k`. -/
def tenTo (k : Nat) : Option Binary64 := ofNat? (Nat.pow 10 k)

/-- `x · 10 ^ e`, by one product or quotient for each 308 powers; none when it grows too great. -/
def shiftTen (x : Binary64) (e : Int) : Option Binary64 :=
  if x.mantissa = 0 then some x
  else if 308 < e then none
  else if 0 ≤ e then (tenTo e.toNat).bind x.mul
  else if -308 ≤ e then (tenTo (-e).toNat).bind x.div
  else ((tenTo 308).bind x.div).bind fun y => y.shiftTen (e + 308)
termination_by e.natAbs

end Binary64

end AlterScript
