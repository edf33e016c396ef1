/-
  Tags, anchors and directives.

  A tag is written with a handle and a text behind it; directives at the beginning of a document say
  which text a handle stands for. Tags are texts of octets: an octet that is no ASCII character is
  written as a percent sign with two hexadecimal digits.
-/
import AlterScript.Text.Numeral
import AlterScript.Yaml.Scalar

namespace AlterScript

namespace Yaml

/-! ## Tags -/

/-- A tag as it is written; one without a handle is complete. -/
structure TagName where
  handle : String
  text : String
deriving DecidableEq, Repr

namespace TagName

/-- The characters of tags besides those of names. -/
def marks : List Char := ";/?:@&=+$.!~*'()".toList

/-- Whether a character may stand in a tag; between angle brackets also a comma and brackets. -/
def isTagChar (complete : Bool) (c : Char) : Bool :=
  isNameChar c || marks.contains c || (complete && [',', '[', ']'].contains c)

/-- How many octets follow the first octet of a character. -/
def following? (octet : Nat) : Option Nat :=
  if octet < 0x80 then some 0
  else if octet < 0xC0 then none
  else if octet < 0xE0 then some 1
  else if octet < 0xF0 then some 2
  else if octet < 0xF8 then some 3
  else none

/-- How many octets have to follow an octet, where `due` of them are due before it. -/
def due? (due octet : Nat) : Option Nat :=
  match due with
  | 0 => following? octet
  | n + 1 => if 0x80 ≤ octet ∧ octet < 0xC0 then some n else none

/-- The octets of a tag, where `due` written as numbers have to come first. -/
def octets (complete : Bool) : (due : Nat) → Rest → Option (List Char × Rest)
  | 0, [] => some ([], [])
  | _ + 1, [] => none
  | due, ('%', _) :: (a, _) :: (b, _) :: r =>
    (hexNumber? [a, b]).bind fun octet =>
    (due? due octet).bind fun due =>
    (octets complete due r).map fun q => (Char.ofNat octet :: q.1, q.2)
  | due, (c, p) :: r =>
    if due ≠ 0 ∨ c = '%' then none
    else if isTagChar complete c then
      (octets complete 0 r).map fun q => (c :: q.1, q.2)
    else some ([], (c, p) :: r)

/-- A text of octets that is not empty. -/
def nonEmpty (complete : Bool) (cs : Rest) : Option (String × Rest) :=
  (octets complete 0 cs).bind fun q =>
    if q.1.isEmpty then none else some (String.ofList q.1, q.2)

/-- A tag behind its exclamation mark. -/
def read (cs : Rest) : Option (TagName × Rest) :=
  match cs with
  | ('<', _) :: r =>
    (nonEmpty true r).bind fun (text, r) =>
      match r with
      | ('>', _) :: r => some (⟨"", text⟩, r)
      | _ => none
  | _ =>
    let (word, r) := Rest.name cs
    match r with
    | ('!', _) :: r =>
      (nonEmpty false r).map fun (text, r) => (⟨"!" ++ String.ofList word ++ "!", text⟩, r)
    | _ =>
      (octets false 0 r).map fun (more, r) =>
        let text := String.ofList (word ++ more)
        (if text.isEmpty then ⟨"", "!"⟩ else ⟨"!", text⟩, r)

/-- Whether a tag ends here. -/
def endsHere (inBrackets : Bool) : Rest → Bool
  | [] => true
  | (c, p) :: r => Rest.atEnd ((c, p) :: r) || (inBrackets && c == ',')

end TagName

/-! ## Anchors -/

/-- The marks that may stand right behind the name of an anchor. -/
def anchorEnds : List Char := "?:,]\x7d%@`".toList

/-- The name of an anchor or an alias. -/
def anchorName (cs : Rest) : Option (String × Rest) :=
  let (word, r) := Rest.name cs
  let ends := match r with
    | [] => true
    | (c, _) :: _ => Rest.atEnd r || anchorEnds.contains c
  if word.isEmpty || !ends then none else some (String.ofList word, r)

/-! ## Directives -/

/-- A directive at the beginning of a document. -/
inductive Directive
  /-- The version of the format. -/
  | version (major minor : Nat)
  /-- The text that a handle stands for. -/
  | handle (handle text : String)
deriving DecidableEq, Repr

namespace Directive

/-- A number of at most nine digits. -/
def number (cs : Rest) : Option (Nat × Rest) :=
  let digits := Rest.chars (cs.takeWhile fun c => c.1.isDigit)
  if digits.isEmpty || 9 < digits.length then none
  else (Text.digitsFrom 0 digits).map fun n => (n, cs.dropWhile fun c => c.1.isDigit)

/-- The two numbers of a version. -/
def versionNumbers (cs : Rest) : Option (Directive × Rest) :=
  (number cs).bind fun (major, r) =>
    match r with
    | ('.', _) :: r => (number r).map fun (minor, r) => (version major minor, r)
    | _ => none

/-- A handle: a name between exclamation marks, or one exclamation mark. -/
def handleName : Rest → Option (String × Rest)
  | ('!', _) :: r =>
    let (word, r) := Rest.name r
    match r with
    | ('!', _) :: r => some ("!" ++ String.ofList word ++ "!", r)
    | r => if word.isEmpty then some ("!", r) else none
  | _ => none

/-- A handle with the text that it stands for, with blanks between them. -/
def handleText (cs : Rest) : Option (Directive × Rest) :=
  (handleName cs).bind fun (name, r) =>
    match r with
    | (c, _) :: s =>
      if isBlank c then
        (TagName.nonEmpty true (Rest.skipBlanks s)).bind fun (text, r) =>
          if Rest.atEnd r then some (handle name text, r) else none
      else none
    | [] => none

/-- A directive behind its percent sign, up to the end of the line. -/
def read (cs : Rest) : Option (Directive × Rest) :=
  let (word, r) := Rest.name cs
  let directive? :=
    if !Rest.atEnd r then none
    else if word = "YAML".toList then versionNumbers (Rest.skipBlanks r)
    else if word = "TAG".toList then handleText (Rest.skipBlanks r)
    else none
  directive?.bind fun (d, r) => (Rest.nextLine r).map fun r => (d, r)

end Directive

end Yaml

end AlterScript
