/-
  Tokens of a YAML text.

  Indentation becomes visible: a collection in lines begins with a token of its own and ends with
  one. That a node is a name shows only at the colon behind it, so the tokens that begin a name are
  put in front of it then. Without a candidate there, a colon in lines belongs to a name that was
  marked as one.
-/
import AlterScript.Yaml.Block
import AlterScript.Yaml.Basic
import AlterScript.Yaml.Tag

namespace AlterScript

namespace Yaml

/-- A token. -/
inductive Token
  | directive (directive : Directive)
  | documentStart
  | documentEnd
  /-- The beginning of a sequence in lines. -/
  | sequenceStart
  /-- The beginning of a mapping in lines. -/
  | mappingStart
  /-- The end of a collection in lines. -/
  | blockEnd
  | openSequence
  | closeSequence
  | openMapping
  | closeMapping
  | comma
  /-- The mark of an item in lines. -/
  | item
  /-- The beginning of a name. -/
  | key
  /-- The colon behind a name. -/
  | value
  | aliased (name : String)
  | anchor (name : String)
  | tag (tag : TagName)
  | scalar (style : Style) (text : String)
deriving DecidableEq, Repr

/-- A node that may turn out to be a name. -/
structure Candidate where
  /-- The number of tokens before it. -/
  index : Nat
  place : Place
  /-- Whether nothing but a name can stand there. -/
  isRequired : Bool
deriving DecidableEq, Repr

namespace Candidate

/-- A name stands on one line with its colon, with no more than 1024 characters before that. -/
def isStale (k : Candidate) (p : Place) : Bool :=
  k.place.line < p.line || k.place.column + 1024 < p.column

/-- What is left of a candidate at a place; a required one does not become stale. -/
def remaining (p : Place) : Option Candidate → Option (Option Candidate)
  | none => some none
  | some k =>
    if k.isStale p then if k.isRequired then none else some none
    else some (some k)

end Candidate

/-- Where the reading of tokens stands. -/
structure Layout where
  /-- The tokens so far, the last one first. -/
  tokens : List Token := []
  /-- The columns of the collections in lines that are open, the innermost first. -/
  columns : List Nat := []
  candidate : Option Candidate := none
  /-- The candidates outside the open brackets, the innermost first. -/
  outer : List (Option Candidate) := []
  /-- Whether a name may begin here. -/
  mayBeName : Bool := true
deriving DecidableEq, Repr

namespace Layout

def inBrackets (l : Layout) : Bool := !l.outer.isEmpty

def push (l : Layout) (t : Token) : Layout := { l with tokens := t :: l.tokens }

/-- Puts a token behind the first `index` tokens. -/
def insert (l : Layout) (index : Nat) (t : Token) : Layout :=
  { l with tokens := l.tokens.insertIdx (l.tokens.length - index) t }

def setMayBeName (l : Layout) (mayBeName : Bool) : Layout := { l with mayBeName }

/-! ## Indentation -/

/-- The least indentation of what stands inside the innermost open collection. -/
def indent (l : Layout) : Nat :=
  match l.columns with
  | [] => 0
  | c :: _ => c + 1

/-- Opens a collection in lines, behind the first `index` tokens, where its column lies deeper than
    those of the open ones. -/
def opened (l : Layout) (column index : Nat) (t : Token) : Layout :=
  if !l.inBrackets && l.indent ≤ column then
    { l.insert index t with columns := column :: l.columns }
  else l

/-- Closes the collections in lines that lie deeper than a column. -/
def closeTo (l : Layout) (column : Nat) : Layout :=
  if l.inBrackets then l
  else
    let deeper := l.columns.takeWhile (column < ·)
    { l with
      tokens := List.replicate deeper.length .blockEnd ++ l.tokens
      columns := l.columns.drop deeper.length }

/-- Closes all collections in lines. -/
def closeAll (l : Layout) : Layout :=
  if l.inBrackets then l
  else { l with tokens := List.replicate l.columns.length .blockEnd ++ l.tokens, columns := [] }

/-! ## Candidates -/

/-- Gives up the candidate, unless it is required. -/
def release (l : Layout) : Option Layout :=
  if l.candidate.any Candidate.isRequired then none else some { l with candidate := none }

/-- Makes the node that begins at a place the candidate, where a name may begin. -/
def propose (l : Layout) (p : Place) : Option Layout :=
  if l.mayBeName then
    l.release.map fun l =>
      { l with
        candidate := some
          { index := l.tokens.length
            place := p
            isRequired := !l.inBrackets && l.columns.head? == some p.column } }
  else some l

/-- The layout with what is left of the candidates at a place. -/
def atPlace (l : Layout) (p : Place) : Option Layout :=
  (Candidate.remaining p l.candidate).bind fun candidate =>
  (l.outer.mapM (Candidate.remaining p)).map fun outer => { l with candidate, outer }

/-! ## Marks -/

/-- A step: the layout behind a token, and what is left. -/
abbrev Step := Option (Layout × Rest)

/-- The beginning or end of a document. -/
def documentMark (l : Layout) (t : Token) (r : Rest) : Step :=
  l.closeAll.release.map fun l => ((l.push t).setMayBeName false, r)

def directive (l : Layout) (cs : Rest) : Step :=
  l.closeAll.release.bind fun l =>
    (Directive.read cs).map fun (d, r) => ((l.push (.directive d)).setMayBeName false, r)

/-- An opening bracket. -/
def openBracket (l : Layout) (p : Place) (t : Token) (r : Rest) : Step :=
  (l.propose p).map fun l =>
    ({ l.push t with candidate := none, outer := l.candidate :: l.outer, mayBeName := true }, r)

/-- A closing bracket. -/
def closeBracket (l : Layout) (t : Token) (r : Rest) : Step :=
  l.release.map fun l =>
    let l := (l.push t).setMayBeName false
    (match l.outer with
      | [] => l
      | k :: ks => { l with candidate := k, outer := ks }, r)

def comma (l : Layout) (r : Rest) : Step :=
  l.release.map fun l => ((l.push .comma).setMayBeName true, r)

/-- The mark of an item. -/
def item (l : Layout) (p : Place) (r : Rest) : Step :=
  if !l.inBrackets && !l.mayBeName then none
  else
    (l.opened p.column l.tokens.length .sequenceStart).release.map fun l =>
      ((l.push .item).setMayBeName true, r)

/-- The mark of a name. -/
def key (l : Layout) (p : Place) (r : Rest) : Step :=
  if !l.inBrackets && !l.mayBeName then none
  else
    (l.opened p.column l.tokens.length .mappingStart).release.map fun l =>
      ((l.push .key).setMayBeName !l.inBrackets, r)

/-- The colon behind a name. -/
def value (l : Layout) (p : Place) (r : Rest) : Step :=
  match l.candidate with
  | some k =>
    let l := (l.insert k.index .key).opened k.place.column k.index .mappingStart
    some ({ l.push .value with candidate := none, mayBeName := false }, r)
  | none =>
    if !l.inBrackets && !l.mayBeName then none
    else
      let l := l.opened p.column l.tokens.length .mappingStart
      some ((l.push .value).setMayBeName !l.inBrackets, r)

/-! ## Nodes -/

/-- A token of a node that may be a name, with what is left. -/
def node (l : Layout) (p : Place) (token : Option (Token × Rest)) : Step :=
  (l.propose p).bind fun l => token.map fun (t, r) => ((l.push t).setMayBeName false, r)

/-- A plain scalar; behind the end of a line a name may begin. -/
def plain (l : Layout) (p : Place) (cs : Rest) : Step :=
  (l.propose p).bind fun l =>
    (Yaml.plain l.inBrackets l.indent cs).map fun (s, isLines, r) =>
      ((l.push (.scalar .plain s)).setMayBeName isLines, r)

/-- A scalar in lines. -/
def block (l : Layout) (style : Style) (r : Rest) : Step :=
  l.release.bind fun l =>
    (Block.scalar (style == .folded) l.indent r).map fun (s, r) =>
      ((l.push (.scalar style s)).setMayBeName true, r)

/-- A tag, which ends with a word. -/
def tag (inBrackets : Bool) (cs : Rest) : Option (Token × Rest) :=
  (TagName.read cs).bind fun (t, r) =>
    if TagName.endsHere inBrackets r then some (.tag t, r) else none

/-! ## Text -/

/-- Skips blanks, comments and the ends of lines, and says whether a name may begin behind them.
    In lines, where a name may begin, tabs are not skipped. A byte order mark at the beginning of a
    line is skipped; it takes a column. -/
def skip (inBrackets : Bool) : (mayBeName inComment : Bool) → Rest → Bool × Rest
  | mayBeName, _, [] => (mayBeName, [])
  | mayBeName, inComment, (c, p) :: r =>
    if isLineEnd c then skip inBrackets (mayBeName || !inBrackets) false r
    else if inComment || c == ' ' || (c == '\t' && (inBrackets || !mayBeName))
        || (c == byteOrderMark && p.column == 0) then
      skip inBrackets mayBeName inComment r
    else if c = '#' then skip inBrackets mayBeName true r
    else (mayBeName, (c, p) :: r)

/-- The next token, which begins with the character `c` at `p`. -/
def next (l : Layout) (c : Char) (p : Place) (r : Rest) : Step :=
  let cs := (c, p) :: r
  if p.column == 0 && c == '%' then l.directive r
  else if Rest.isTriple '-' cs then l.documentMark .documentStart (r.drop 2)
  else if Rest.isTriple '.' cs then l.documentMark .documentEnd (r.drop 2)
  else if c == '[' then l.openBracket p .openSequence r
  else if c == '\x7b' then l.openBracket p .openMapping r
  else if c == ']' then l.closeBracket .closeSequence r
  else if c == '\x7d' then l.closeBracket .closeMapping r
  else if c == ',' then l.comma r
  else if c == '-' && Rest.atEnd r then l.item p r
  else if c == '?' && (l.inBrackets || Rest.atEnd r) then l.key p r
  else if c == ':' && (l.inBrackets || Rest.atEnd r) then l.value p r
  else if c == '*' then l.node p ((anchorName r).map fun (s, r) => (.aliased s, r))
  else if c == '&' then l.node p ((anchorName r).map fun (s, r) => (.anchor s, r))
  else if c == '!' then l.node p (tag l.inBrackets r)
  else if c == '|' && !l.inBrackets then l.block .literal r
  else if c == '>' && !l.inBrackets then l.block .folded r
  else if c == '\'' then
    l.node p ((singleQuoted r).map fun (s, r) => (.scalar .singleQuoted s, r))
  else if c == '"' then
    l.node p ((doubleQuoted r).map fun (s, r) => (.scalar .doubleQuoted s, r))
  else if startsPlain l.inBrackets cs then l.plain p cs
  else none

/-- The layout behind all tokens of a text, of which there are less than `n`. -/
def run : (n : Nat) → Layout → Rest → Option Layout
  | 0, _, _ => none
  | n + 1, l, cs =>
    let (mayBeName, cs) := skip l.inBrackets l.mayBeName false cs
    match cs with
    | [] => l.closeAll.release
    | (c, p) :: r =>
      ((l.setMayBeName mayBeName).atPlace p).bind fun l =>
      ((l.closeTo p.column).next c p r).bind fun (l, r) => run n l r

end Layout

namespace Token

/-- The tokens of a text. -/
def ofRest? (cs : Rest) : Option (List Token) :=
  (Layout.run (cs.length + 1) {} cs).map fun l => l.tokens.reverse

end Token

end Yaml

end AlterScript
