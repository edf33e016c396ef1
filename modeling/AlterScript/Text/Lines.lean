/-
  Lines of a text, comments, and joining.
-/
namespace AlterScript

namespace Text

/-- The lines of a text. A line ends at a line feed, or at a carriage return with a line feed;
    the end of the text ends a line only when something stands on it. -/
def lineChars : List Char → List (List Char)
  | [] => []
  | '\n' :: r => [] :: lineChars r
  | '\r' :: '\n' :: r => [] :: lineChars r
  | c :: r =>
    match lineChars r with
    | [] => [[c]]
    | l :: ls => (c :: l) :: ls

def lines (s : String) : List String := (lineChars s.toList).map String.ofList

/-- The parts of a text between the separators; there is one more of them than of separators. -/
def parts (separator : Char) : List Char → List (List Char)
  | [] => [[]]
  | c :: r =>
    if c = separator then [] :: parts separator r
    else
      match parts separator r with
      | [] => [[c]]
      | p :: ps => (c :: p) :: ps

/-- Texts with a separator between each two. -/
def join (separator : String) : List String → String
  | [] => ""
  | [s] => s
  | s :: r => s ++ separator ++ join separator r

@[simp] theorem join_nil (separator : String) : join separator [] = "" := rfl

@[simp] theorem join_singleton (separator s : String) : join separator [s] = s := rfl

theorem join_cons_cons (separator s t : String) (r : List String) :
    join separator (s :: t :: r) = s ++ separator ++ join separator (t :: r) := rfl

/-- Every line behind the comment mark, so that nothing of the text takes effect. -/
def commentOut (s : String) : String := join "\n" ((lines s).map ("-- " ++ ·))

/-- What stands behind the last slash, unless that is nothing. -/
def lastSegment (s : String) : Option String :=
  let segment := s.toList.reverse.takeWhile (· ≠ '/')
  if segment.isEmpty then none else some (String.ofList segment.reverse)

end Text

end AlterScript
