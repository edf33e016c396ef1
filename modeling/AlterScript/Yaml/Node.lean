/-
  Documents from tokens.

  A node is an alias, or a scalar or collection with an anchor and a tag in front of it; a node that
  is left out is an empty plain scalar. Nodes nest no deeper than there are tokens, so a bound on
  the depth that is found from their number is none.
-/
import AlterScript.Yaml.Token

namespace AlterScript

namespace Yaml

/-- The anchors so far: the number of every name, and the values in the order in which they begin.
    A value that is not complete is empty. -/
structure Anchors where
  numbers : Entries Nat := []
  values : Anchored := []

/-- The tokens that are left, and the anchors so far. -/
structure Source where
  tokens : List Token
  anchors : Anchors := {}

/-- Reads from the tokens, or fails. -/
abbrev Reader := StateT Source Option

namespace Reader

/-! ## Tokens -/

/-- The next token. -/
def peek : Reader (Option Token) := do return (← get).tokens.head?

/-- Whether the next token is one of these. -/
def isNext (ts : List Token) : Reader Bool := do return (← peek).any ts.contains

def skip : Reader Unit := modify fun s => { s with tokens := s.tokens.drop 1 }

/-- Skips the next token if it is this one. -/
def accept (t : Token) : Reader Bool := do
  if ← isNext [t] then
    skip
    return true
  else return false

def expect (t : Token) : Reader Unit := do
  if !(← accept t) then failure

/-! ## Anchors and tags -/

/-- Numbers an anchor, by how many names there are, and keeps a place for its value. -/
def enter (name : String) : Reader Nat := do
  let s ← get
  let number := s.anchors.numbers.length
  set { s with anchors :=
    { numbers := s.anchors.numbers.put name number
      values := s.anchors.values ++ [(number, empty)] } }
  return s.anchors.values.length

/-- Puts the value of an anchor at its place. -/
def leave (index : Nat) (y : Yaml) : Reader Unit :=
  modify fun s =>
    { s with anchors :=
      { s.anchors with values := s.anchors.values.modify index fun v => (v.1, y) } }

/-- The alias with this name. -/
def aliased (name : String) : Reader Yaml := do
  match (← get).anchors.numbers.find? name with
  | some n => return .aliased n
  | none => failure

/-- The name of the anchor that comes next. -/
def anchor? : Reader (Option String) := do
  match ← peek with
  | some (.anchor name) =>
    skip
    return some name
  | _ => return none

/-- The tag that comes next, with the text that its handle stands for. -/
def tag? (handles : List (String × String)) : Reader (Option String) := do
  match ← peek with
  | some (.tag t) =>
    skip
    if t.handle.isEmpty then return some t.text
    else
      match handles.lookup t.handle with
      | some start => return some (start ++ t.text)
      | none => failure
  | _ => return none

/-- Anchor and tag in either order. -/
def properties (handles : List (String × String)) : Reader (Option String × Option String) := do
  let early ← anchor?
  let tag ← tag? handles
  let late ← if early.isNone && tag.isSome then anchor? else pure early
  return (late, tag)

/-! ## Nodes -/

/-- A node, which is left out where one of these tokens comes next. -/
def orEmpty (ends : List Token) (node : Reader Yaml) : Reader Yaml := do
  if ← isNext ends then return empty else node

/-- The node behind a colon; both may be left out. -/
def behindColon (ends : List Token) (node : Reader Yaml) : Reader Yaml := do
  if ← accept .value then orEmpty ends node else return empty

/-- The tokens behind a name or value in lines that is left out. -/
def entryEnds : List Token := [.key, .value, .blockEnd]

mutual

/-- A node, nested less than `n` deep. Behind a name a sequence in lines need not be indented. -/
def node (handles : List (String × String)) : (n : Nat) → (inLines behindName : Bool) → Reader Yaml
  | 0, _, _ => failure
  | n + 1, inLines, behindName => do
    match ← peek with
    | some (.aliased name) =>
      skip
      aliased name
    | _ =>
      let (anchor, tag) ← properties handles
      match anchor with
      | none => content handles n inLines behindName tag.isNone tag
      | some name =>
        let index ← enter name
        let y ← content handles n inLines behindName false tag
        leave index y
        return y

/-- A node behind its anchor and tag; it is not left out if it has neither. -/
def content (handles : List (String × String)) :
    (n : Nat) → (inLines behindName isBare : Bool) → (tag : Option String) → Reader Yaml
  | 0, _, _, _, _ => failure
  | n + 1, inLines, behindName, isBare, tag => do
    let next ← peek
    if behindName && next == some .item then return .sequence (← looseItems handles n)
    match next with
    | some (.scalar style text) =>
      skip
      return .scalar ⟨style, if tag = some "!" then none else tag, text⟩
    | some .openSequence =>
      skip
      return .sequence (← bracketItems handles n true)
    | some .openMapping =>
      skip
      return .mapping (← bracketEntries handles n true)
    | _ =>
      if inLines && next == some .sequenceStart then
        skip
        return .sequence (← items handles n)
      else if inLines && next == some .mappingStart then
        skip
        return .mapping (← entries handles n)
      else if isBare then failure
      else return .scalar { Scalar.empty with tag }

/-- The items of a sequence in lines. -/
def items (handles : List (String × String)) : Nat → Reader (List Yaml)
  | 0 => failure
  | n + 1 => do
    if ← accept .blockEnd then return []
    expect .item
    let y ← orEmpty [.item, .blockEnd] (node handles n true false)
    return y :: (← items handles n)

/-- The items of a sequence that is not indented. -/
def looseItems (handles : List (String × String)) : Nat → Reader (List Yaml)
  | 0 => failure
  | n + 1 => do
    if ← accept .item then
      let y ← orEmpty (.item :: entryEnds) (node handles n true false)
      return y :: (← looseItems handles n)
    else return []

/-- The entries of a mapping in lines. -/
def entries (handles : List (String × String)) : Nat → Reader (List (Yaml × Yaml))
  | 0 => failure
  | n + 1 => do
    if ← accept .blockEnd then return []
    expect .key
    let k ← orEmpty entryEnds (node handles n true true)
    let v ← behindColon entryEnds (node handles n true true)
    return (k, v) :: (← entries handles n)

/-- The items of a sequence in brackets; before all but the first stands a comma, which may also
    stand behind the last. -/
def bracketItems (handles : List (String × String)) : Nat → (isFirst : Bool) → Reader (List Yaml)
  | 0, _ => failure
  | n + 1, isFirst => do
    if ← accept .closeSequence then return []
    if !isFirst then expect .comma
    if ← accept .closeSequence then return []
    let y ← if ← accept .key then pair handles n else node handles n false false
    return y :: (← bracketItems handles n false)

/-- A mapping of one entry, as an item in brackets. Where the name is left out, the token behind it
    is passed over. -/
def pair (handles : List (String × String)) : Nat → Reader Yaml
  | 0 => failure
  | n + 1 => do
    let k ←
      if ← isNext [.value, .comma, .closeSequence] then
        skip
        pure empty
      else node handles n false false
    let v ← behindColon [.comma, .closeSequence] (node handles n false false)
    return .mapping [(k, v)]

/-- The entries of a mapping in brackets; before all but the first stands a comma, which may also
    stand behind the last. An entry that is not marked as one has no value. -/
def bracketEntries (handles : List (String × String)) :
    Nat → (isFirst : Bool) → Reader (List (Yaml × Yaml))
  | 0, _ => failure
  | n + 1, isFirst => do
    if ← accept .closeMapping then return []
    if !isFirst then expect .comma
    if ← accept .closeMapping then return []
    if ← accept .key then
      let k ← orEmpty [.value, .comma, .closeMapping] (node handles n false false)
      let v ← behindColon [.comma, .closeMapping] (node handles n false false)
      return (k, v) :: (← bracketEntries handles n false)
    else
      let k ← node handles n false false
      return (k, empty) :: (← bracketEntries handles n false)

end

end Reader

/-! ## Documents -/

/-- The handles that need no directive. -/
def commonHandles : List (String × String) := [("!", "!"), ("!!", "tag:yaml.org,2002:")]

/-- The handles of the directives before a document, and the tokens behind those. The version is
    given at most once, and no handle twice. -/
def directives (hasVersion : Bool) (handles : List (String × String)) :
    List Token → Option (List (String × String) × List Token)
  | .directive (.version major minor) :: r =>
    if hasVersion || major != 1 || (minor != 1 && minor != 2) then none
    else directives true handles r
  | .directive (.handle handle text) :: r =>
    if (handles.lookup handle).isSome then none
    else directives hasVersion (handles ++ [(handle, text)]) r
  | r => some (handles ++ commonHandles, r)

/-- Whether the value of a document is left out before this token. -/
def Token.endsDocument : Token → Bool
  | .directive _ | .documentStart | .documentEnd => true
  | _ => false

/-- The value of a document, behind which nothing stands but the ends of documents. -/
def Document.ofContent? (handles : List (String × String)) (ts : List Token) : Option Document :=
  ((Reader.node handles (3 * ts.length + 4) true false).run { tokens := ts }).bind fun (root, s) =>
    if s.tokens.all (· == .documentEnd) then some ⟨root, s.anchors.values⟩ else none

/-- The value behind the mark that begins a document. -/
def Document.ofMarked? (handles : List (String × String)) (ts : List Token) : Option Document :=
  if (ts.head?.map Token.endsDocument).getD true then
    if ts.all (· == .documentEnd) then some ⟨empty, []⟩ else none
  else Document.ofContent? handles ts

/-- The one document that tokens make; without any it is empty. -/
def Document.ofTokens? (ts : List Token) : Option Document :=
  match ts with
  | [] => some ⟨empty, []⟩
  | .directive _ :: _ | .documentStart :: _ =>
    (directives false [] ts).bind fun (handles, r) =>
      match r with
      | .documentStart :: r => Document.ofMarked? handles r
      | _ => none
  | _ => Document.ofContent? commonHandles ts

/-- The document that a text holds. -/
def Document.ofText? (s : String) : Option Document :=
  if s.toList.all isPrintable then (Token.ofRest? (Rest.ofText s)).bind Document.ofTokens? else none

end Yaml

end AlterScript
