/-
  The characters of a YAML text with their places.

  A line ends at a line feed, at a carriage return with or without a line feed, or at one of the
  Unicode marks for it. All but the marks U+2028 and U+2029 are read as line feeds.
-/
namespace AlterScript

namespace Yaml

/-! ## Characters -/

/-- The characters that may stand in a text. -/
def isPrintable (c : Char) : Bool :=
  let n := c.toNat
  n == 0x09 || n == 0x0A || n == 0x0D || (0x20 ≤ n && n ≤ 0x7E) || n == 0x85
    || (0xA0 ≤ n && n != 0xFFFE && n != 0xFFFF)

/-- The ends of lines as line feeds, save the two marks that stay as they are. -/
def unifyLines : List Char → List Char
  | [] => []
  | '\r' :: '\n' :: r => '\n' :: unifyLines r
  | c :: r => (if c = '\r' ∨ c = '\u0085' then '\n' else c) :: unifyLines r

/-- The end of a line. -/
def isLineEnd (c : Char) : Bool := c == '\n' || c == '\u2028' || c == '\u2029'

/-- A blank inside a line. -/
def isBlank (c : Char) : Bool := c == ' ' || c == '\t'

/-- A byte order mark. -/
def byteOrderMark : Char := '\ufeff'

/-- The characters of names: ASCII letters, digits, hyphen and underscore. -/
def isNameChar (c : Char) : Bool := c.isAlphanum || c == '_' || c == '-'

/-! ## Places -/

/-- A place in a text. -/
structure Place where
  line : Nat
  column : Nat
deriving DecidableEq, Repr

namespace Place

/-- The place behind a character. -/
def after (p : Place) (c : Char) : Place :=
  if isLineEnd c then ⟨p.line + 1, 0⟩ else ⟨p.line, p.column + 1⟩

end Place

/-- What is left of a text: characters with their places. -/
abbrev Rest := List (Char × Place)

namespace Rest

/-- The characters of a text that begins at a place. -/
def ofChars (p : Place) : List Char → Rest
  | [] => []
  | c :: r => (c, p) :: ofChars (p.after c) r

/-- The characters of a text. -/
def ofText (s : String) : Rest := ofChars ⟨0, 0⟩ (unifyLines s.toList)

def chars (cs : Rest) : List Char := cs.map Prod.fst

theorem chars_ofChars (p : Place) (cs : List Char) : (ofChars p cs).chars = cs := by
  induction cs generalizing p with
  | nil => rfl
  | cons c r ih => simpa [ofChars, chars] using ih (p.after c)

/-- Whether a word ends here: at a blank, a line or the text. -/
def atEnd : Rest → Bool
  | [] => true
  | (c, _) :: _ => isBlank c || isLineEnd c

/-- Whether a line begins with `mark` three times and nothing right behind it. -/
def isTriple (mark : Char) : Rest → Bool
  | (a, p) :: (b, _) :: (c, _) :: r =>
    p.column == 0 && a == mark && b == mark && c == mark && atEnd r
  | _ => false

/-- Whether a document begins or ends here. -/
def isDocumentMark (cs : Rest) : Bool := isTriple '-' cs || isTriple '.' cs

def skipBlanks (cs : Rest) : Rest := cs.dropWhile fun c => isBlank c.1

/-- The next line, where only blanks and a comment are left on this one. -/
def nextLine (cs : Rest) : Option Rest :=
  match cs.skipBlanks with
  | [] => some []
  | (c, _) :: r =>
    if c = '#' then some ((r.dropWhile fun c => !isLineEnd c.1).drop 1)
    else if isLineEnd c then some r
    else none

/-- The characters of a name, and what is left behind them. -/
def name (cs : Rest) : List Char × Rest :=
  (chars (cs.takeWhile fun c => isNameChar c.1), cs.dropWhile fun c => isNameChar c.1)

end Rest

end Yaml

end AlterScript
