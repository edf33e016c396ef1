/-
  Quoted names and literals: the quote stands at both ends and is written twice inside.

  `undoubled_doubled`: reading a quoted text back gives the text and whatever follows it.
-/
namespace AlterScript

namespace Text

/-- Writes every `q` twice. -/
def doubled (q : Char) : List Char → List Char
  | [] => []
  | c :: r => if c = q then q :: q :: doubled q r else c :: doubled q r

/-- A text between quotes `q`. -/
def quote (q : Char) (s : String) : String :=
  String.ofList (q :: (doubled q s.toList ++ [q]))

/-- Reads up to the first `q` that does not stand twice. -/
def undoubled (q : Char) : List Char → Option (List Char × List Char)
  | [] => none
  | c :: r =>
    if c = q then
      match r with
      | d :: r' => if d = q then (undoubled q r').map fun p => (q :: p.1, p.2) else some ([], r)
      | [] => some ([], [])
    else (undoubled q r).map fun p => (c :: p.1, p.2)

theorem undoubled_cons_of_ne {q c : Char} (h : c ≠ q) (r : List Char) :
    undoubled q (c :: r) = (undoubled q r).map fun p => (c :: p.1, p.2) := by
  cases r <;> simp [undoubled, h]

/-- Reading a doubled text up to its closing quote gives the text and what follows. -/
theorem undoubled_doubled (q : Char) (cs rest : List Char) (h : rest.head? ≠ some q) :
    undoubled q (doubled q cs ++ q :: rest) = some (cs, rest) := by
  induction cs with
  | nil =>
    cases rest with
    | nil => simp [doubled, undoubled]
    | cons d r =>
      have : d ≠ q := by simpa using h
      simp [doubled, undoubled, this]
  | cons c r ih =>
    by_cases hc : c = q
    · subst hc; simp [doubled, undoubled, ih]
    · simp [doubled, undoubled_cons_of_ne hc, hc, ih]

/-- A name as CQL writes it: between double quotes. -/
def quotedName (s : String) : String := quote '"' s

/-- A text literal as CQL writes it: between single quotes. -/
def quotedLiteral (s : String) : String := quote '\'' s

theorem toList_quotedName (s : String) :
    (quotedName s).toList = '"' :: (doubled '"' s.toList ++ ['"']) := by
  simp [quotedName, quote]

end Text

end AlterScript
