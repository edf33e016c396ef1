/-
  Blank characters, trimming and ASCII case.

  A text is blank when it holds blank characters only.
-/
namespace AlterScript

namespace Text

/-! ## Blank characters -/

/-- The characters with the Unicode property `White_Space`. -/
def blank (c : Char) : Bool :=
  let n := c.toNat
  (9 ≤ n && n ≤ 13) || n == 0x20 || n == 0x85 || n == 0xA0 || n == 0x1680
    || (0x2000 ≤ n && n ≤ 0x200A) || n == 0x2028 || n == 0x2029 || n == 0x202F
    || n == 0x205F || n == 0x3000

theorem blank_of_isDigit {c : Char} (h : c.isDigit = true) : blank c = false := by
  have hrange : 48 ≤ c.toNat ∧ c.toNat ≤ 57 := by
    rw [Char.isDigit, Bool.and_eq_true, decide_eq_true_eq, decide_eq_true_eq] at h
    exact ⟨h.1, h.2⟩
  rw [blank]
  simp only [Bool.or_eq_false_iff, Bool.and_eq_false_iff, decide_eq_false_iff_not,
    beq_eq_false_iff_ne]
  omega

/-- Drops the blank characters at both ends. -/
def trimChars (cs : List Char) : List Char :=
  ((cs.dropWhile blank).reverse.dropWhile blank).reverse

/-- Drops the blank characters at both ends. -/
def trim (s : String) : String := String.ofList (trimChars s.toList)

/-- Whether a text holds blank characters only. -/
def isBlank (s : String) : Bool := s.toList.all blank

/-- A text that is not blank, as given. -/
def nonBlank (s : String) : Option String := if isBlank s then none else some s

theorem nonBlank_bind_nonBlank (s : String) : (nonBlank s).bind nonBlank = nonBlank s := by
  by_cases h : isBlank s = true <;> simp [nonBlank, h]

/-! ## ASCII case -/

/-- Lower-cases the letters `A` to `Z` and nothing else. -/
def lower (s : String) : String := String.ofList (s.toList.map Char.toLower)

/-- Equality up to the case of ASCII letters. -/
def sameFold (a b : String) : Bool := a.toList.map Char.toLower == b.toList.map Char.toLower

/-- The form in which keywords and type names are compared. -/
def keyword (s : String) : String := lower (trim s)

end Text

end AlterScript
