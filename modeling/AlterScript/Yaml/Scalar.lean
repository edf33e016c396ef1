/-
  Plain and quoted scalars.

  A scalar may go on in further lines. The blanks at the ends of its lines are no part of it, one
  line end between two words is a blank, and of several the first is dropped.
-/
import AlterScript.Json.Reader
import AlterScript.Yaml.Place

namespace AlterScript

namespace Yaml

/-! ## Gaps -/

/-- What stands between two words of a scalar. -/
inductive Gap
  /-- Blanks on one line. -/
  | blanks (cs : List Char)
  /-- The end of a line, and those of the empty lines behind it. -/
  | lines (first : Char) (more : List Char)
  /-- The ends of empty lines behind one that a backslash takes away. -/
  | joined (more : List Char)
deriving DecidableEq, Repr

namespace Gap

/-- No gap. -/
def empty : Gap := blanks []

def isEmpty : Gap → Bool
  | blanks cs => cs.isEmpty
  | _ => false

/-- Whether the gap goes over the end of a line. -/
def isLines : Gap → Bool
  | blanks _ => false
  | _ => true

/-- A gap with another blank or end of a line; blanks around the ends of lines do not count. -/
def push (g : Gap) (c : Char) : Gap :=
  if isLineEnd c then
    match g with
    | blanks _ => lines c []
    | lines first more => lines first (more ++ [c])
    | joined more => joined (more ++ [c])
  else
    match g with
    | blanks cs => blanks (cs ++ [c])
    | g => g

/-- The characters of the scalar that a gap stands for. -/
def text : Gap → List Char
  | blanks cs => cs
  | lines first more =>
    if first = '\n' then if more.isEmpty then [' '] else more
    else first :: more
  | joined more => more

end Gap

/-! ## Plain scalars -/

/-- The marks that a plain scalar does not begin with. -/
def marks : List Char := "-?:,[]\x7b\x7d#&*!|>'\"%@`".toList

/-- The marks that end a plain scalar in brackets. -/
def bracketMarks : List Char := ",[]\x7b\x7d".toList

/-- Whether a plain scalar begins here. -/
def startsPlain (inBrackets : Bool) : Rest → Bool
  | [] => false
  | (c, _) :: r =>
    !isBlank c && (!marks.contains c || (c == '-' && !Rest.atEnd r)
      || (!inBrackets && (c == '?' || c == ':') && !Rest.atEnd r))

/-- Whether a plain scalar ends at this character: a colon at the end of a word, or in brackets a
    bracket or a comma. -/
def endsPlain (inBrackets : Bool) (c : Char) (r : Rest) : Bool :=
  (c == ':' && Rest.atEnd r) || (inBrackets && bracketMarks.contains c)

/-- Whether a plain scalar ends before this character, which stands behind a gap: before a comment,
    a document mark, or a line that is not indented as far as it has to be. -/
def endsBehindGap (inBrackets : Bool) (indent : Nat) (c : Char) (p : Place) (r : Rest) : Bool :=
  c == '#' || Rest.isDocumentMark ((c, p) :: r) || (!inBrackets && p.column < indent)

/-- In brackets no colon of a plain scalar stands right before a bracket, a comma or a question
    mark. -/
def isMisplacedColon (inBrackets : Bool) (c : Char) : Rest → Bool
  | [] => false
  | (d, _) :: _ => inBrackets && c == ':' && (d == '?' || bracketMarks.contains d)

/-- The characters of a plain scalar from a gap on, whether it ends in a gap over lines, and what
    is left. Its lines are not indented with tabs. -/
def plainFrom (inBrackets : Bool) (indent : Nat) : Gap → Rest → Option (List Char × Bool × Rest)
  | g, [] => some ([], g.isLines, [])
  | g, (c, p) :: r =>
    if isLineEnd c then plainFrom inBrackets indent (g.push c) r
    else if isBlank c then
      if g.isLines && c == '\t' && p.column < indent then none
      else plainFrom inBrackets indent (g.push c) r
    else if !g.isEmpty && endsBehindGap inBrackets indent c p r then
      some ([], g.isLines, (c, p) :: r)
    else if isMisplacedColon inBrackets c r then none
    else if endsPlain inBrackets c r then some ([], g.isLines, (c, p) :: r)
    else (plainFrom inBrackets indent .empty r).map fun q => (g.text ++ c :: q.1, q.2)

/-- A plain scalar whose further lines are indented by at least `indent`. -/
def plain (inBrackets : Bool) (indent : Nat) (cs : Rest) : Option (String × Bool × Rest) :=
  (plainFrom inBrackets indent .empty cs).map fun q => (String.ofList q.1, q.2)

/-! ## Quoted scalars -/

/-- The value of hexadecimal digits. -/
def hexNumber? (digits : List Char) : Option Nat :=
  digits.foldl (fun n? c => n?.bind fun n => (Json.hexDigit? c).map (16 * n + ·)) (some 0)

/-- The character with the number that hexadecimal digits give. -/
def codePoint? (digits : List Char) : Option Char :=
  (hexNumber? digits).bind fun n => if n.isValidChar then some (Char.ofNat n) else none

/-- The character that a letter behind a backslash stands for. -/
def escape? : Char → Option Char
  | '0' => some '\x00'
  | 'a' => some '\x07'
  | 'v' => some '\x0b'
  | 'e' => some '\x1b'
  | ' ' => some ' '
  | '\t' => some '\t'
  | 'N' => some '\u0085'
  | '_' => some '\u00a0'
  | 'L' => some '\u2028'
  | 'P' => some '\u2029'
  | c => Json.escape? c

/-- The characters from a gap on up to the closing single quote, which stands twice inside. -/
def singleQuotedFrom : Gap → Rest → Option (List Char × Rest)
  | _, [] => none
  | g, (c, p) :: r =>
    if isLineEnd c || isBlank c then singleQuotedFrom (g.push c) r
    else if Rest.isDocumentMark ((c, p) :: r) then none
    else if c = '\'' then
      match r with
      | ('\'', _) :: s => (singleQuotedFrom .empty s).map fun q => (g.text ++ '\'' :: q.1, q.2)
      | s => some (g.text, s)
    else (singleQuotedFrom .empty r).map fun q => (g.text ++ c :: q.1, q.2)

/-- The characters from a gap on up to the closing double quote. -/
def doubleQuotedFrom : Gap → Rest → Option (List Char × Rest)
  | _, [] => none
  | g, (c, p) :: r =>
    if isLineEnd c || isBlank c then doubleQuotedFrom (g.push c) r
    else if Rest.isDocumentMark ((c, p) :: r) then none
    else if c = '"' then some (g.text, r)
    else if c = '\\' then
      match r with
      | [] => none
      | ('x', _) :: (a, _) :: (b, _) :: s =>
        (codePoint? [a, b]).bind fun d =>
          (doubleQuotedFrom .empty s).map fun q => (g.text ++ d :: q.1, q.2)
      | ('u', _) :: (a, _) :: (b, _) :: (c, _) :: (d, _) :: s =>
        (codePoint? [a, b, c, d]).bind fun d =>
          (doubleQuotedFrom .empty s).map fun q => (g.text ++ d :: q.1, q.2)
      | ('U', _) :: (a, _) :: (b, _) :: (c, _) :: (d, _) :: (e, _) :: (f, _) :: (h, _) :: (i, _)
          :: s =>
        (codePoint? [a, b, c, d, e, f, h, i]).bind fun d =>
          (doubleQuotedFrom .empty s).map fun q => (g.text ++ d :: q.1, q.2)
      | (e, _) :: s =>
        if isLineEnd e then (doubleQuotedFrom (.joined []) s).map fun q => (g.text ++ q.1, q.2)
        else
          (escape? e).bind fun d =>
            (doubleQuotedFrom .empty s).map fun q => (g.text ++ d :: q.1, q.2)
    else (doubleQuotedFrom .empty r).map fun q => (g.text ++ c :: q.1, q.2)

/-- A scalar up to the closing single quote. -/
def singleQuoted (cs : Rest) : Option (String × Rest) :=
  (singleQuotedFrom .empty cs).map fun q => (String.ofList q.1, q.2)

/-- A scalar up to the closing double quote. -/
def doubleQuoted (cs : Rest) : Option (String × Rest) :=
  (doubleQuotedFrom .empty cs).map fun q => (String.ofList q.1, q.2)

end Yaml

end AlterScript
