/-
  Scalars written as lines of text.

  The lines are indented, and their indentation is no part of them. Literal lines stay as they are,
  folded ones are joined with blanks. The header of the scalar says what becomes of the line ends
  behind the last line and, where the first line begins with blanks, how far the lines are indented.
-/
import AlterScript.Text.Numeral
import AlterScript.Yaml.Place

namespace AlterScript

namespace Yaml

namespace Block

/-! ## Header -/

/-- What stays of the line ends behind the last line. -/
inductive Ending
  | nothing
  | one
  | all
deriving DecidableEq, Repr

/-- How a scalar in lines is to be read; an indentation of zero is found from its lines. -/
structure Header where
  ending : Ending
  indentation : Nat
deriving DecidableEq, Repr

/-- The mark for an ending. -/
def ending? : Char → Option Ending
  | '-' => some .nothing
  | '+' => some .all
  | _ => none

/-- The ending, where it is given. -/
def ending : Rest → Ending × Rest
  | [] => (.one, [])
  | (c, p) :: r =>
    match ending? c with
    | some e => (e, r)
    | none => (.one, (c, p) :: r)

/-- The digit for the indentation, where it is given; it is not zero. -/
def indentation : Rest → Option (Nat × Rest)
  | [] => some (0, [])
  | (c, p) :: r =>
    match Text.digit? c with
    | some 0 => none
    | some d => some (d, r)
    | none => some (0, (c, p) :: r)

/-- The header and the lines behind it: ending and indentation in either order. -/
def header (cs : Rest) : Option (Header × Rest) := do
  let (early, r) := ending cs
  let (indentation, r) ← indentation r
  let (late, r) := if early = .one then ending r else (early, r)
  let r ← Rest.nextLine r
  return (⟨late, indentation⟩, r)

/-! ## Lines -/

/-- What stands before a line: the end of the line with text before it, whether that began with a
    blank, and the ends of the empty lines between. -/
structure Before where
  last : Option Char := none
  wasBlank : Bool := false
  more : List Char := []
deriving DecidableEq, Repr

namespace Before

/-- The characters that the line ends before a line stand for. Lines that begin with a blank are not
    joined. -/
def text (b : Before) (folded isBlank : Bool) : List Char :=
  if folded && b.last == some '\n' && !b.wasBlank && !isBlank then
    if b.more.isEmpty then [' '] else b.more
  else b.last.toList ++ b.more

/-- What stays behind the last line. -/
def rest (b : Before) : Ending → List Char
  | .nothing => []
  | .one => b.last.toList
  | .all => b.last.toList ++ b.more

end Before

/-- The ends of empty lines before the first line, how far the deepest of these lines is indented,
    and what is left. Nothing is indented with tabs. -/
def leading (more : List Char) (deepest : Nat) : Rest → Option (List Char × Nat × Rest)
  | [] => some (more, deepest, [])
  | (c, p) :: r =>
    if isLineEnd c then leading (more ++ [c]) deepest r
    else if c = ' ' then leading more (max deepest (p.column + 1)) r
    else if c = '\t' then none
    else some (more, deepest, (c, p) :: r)

/-- The characters of the lines. Outside a line (`none`) the indentation is skipped, and a line that
    is indented less is no part of the scalar; inside a line (`some began`) it is known whether it
    began with a blank. -/
def linesFrom (folded : Bool) (indent : Nat) :
    Option Bool → Before → Rest → Option (List Char × Before × Rest)
  | none, b, [] => some ([], b, [])
  | some began, _, [] => some ([], { wasBlank := began }, [])
  | some began, b, (c, _) :: r =>
    if isLineEnd c then linesFrom folded indent none { last := some c, wasBlank := began } r
    else (linesFrom folded indent (some began) b r).map fun q => (c :: q.1, q.2)
  | none, b, (c, p) :: r =>
    if isLineEnd c then linesFrom folded indent none { b with more := b.more ++ [c] } r
    else if p.column < indent then
      if c = ' ' then linesFrom folded indent none b r
      else if c = '\t' then none
      else some ([], b, (c, p) :: r)
    else
      (linesFrom folded indent (some (isBlank c)) {} r).map fun q =>
        (b.text folded (isBlank c) ++ c :: q.1, q.2)

/-- A scalar in lines that are indented by at least `least`. -/
def scalar (folded : Bool) (least : Nat) (cs : Rest) : Option (String × Rest) := do
  let (h, r) ← header cs
  let (more, indent, r) ←
    if h.indentation = 0 then
      (leading [] 0 r).map fun q => (q.1, max q.2.1 (max least 1), q.2.2)
    else some ([], (least - 1) + h.indentation, r)
  let (text, b, r) ← linesFrom folded indent none { more := more } r
  return (String.ofList (text ++ b.rest h.ending), r)

end Block

end Yaml

end AlterScript
