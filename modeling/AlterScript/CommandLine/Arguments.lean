/-
  Arguments of a command line: switches with and without values, and operands.

  A switch is written long, with its value behind an equals sign or in the next argument, or as a
  letter behind a dash, several letters behind one dash. Behind two dashes alone all arguments are
  operands. No switch is given twice.
-/
import AlterScript.Entries

namespace AlterScript

/-- What a switch takes. -/
inductive SwitchValue
  /-- No value: the switch is a flag. -/
  | none
  /-- A text, which may be empty. -/
  | text
  /-- The path of a file, which is not empty. -/
  | path
  /-- No value: the switch asks for something else than a run. -/
  | request
deriving DecidableEq, Repr

/-- A switch of a command. -/
structure Switch where
  name : String
  letter : Option Char := .none
  value : SwitchValue := .none
deriving DecidableEq, Repr

namespace Switch

/-- Whether a value belongs to the switch. -/
def takesValue (s : Switch) : Bool := s.value == .text || s.value == .path

end Switch

/-- Why arguments are no command. -/
inductive UsageError
  | noCommand
  | unknownCommand (name : String)
  | noTree
  | unexpected (argument : String)
  | unknownSwitch (argument : String)
  | repeated (name : String)
  | missingValue (name : String)
  | unexpectedValue (name : String)
  | emptyValue (name : String)
deriving DecidableEq, Repr

namespace UsageError

def message : UsageError → String
  | noCommand => "a command is missing"
  | unknownCommand name => "there is no command " ++ name
  | noTree => "the change tree is missing"
  | unexpected argument => "unexpected argument " ++ argument
  | unknownSwitch argument => "there is no switch " ++ argument
  | repeated name => "--" ++ name ++ " is given twice"
  | missingValue name => "--" ++ name ++ " needs a value"
  | unexpectedValue name => "--" ++ name ++ " takes no value"
  | emptyValue name => "the value of --" ++ name ++ " is empty"

end UsageError

/-- Why arguments are not read to their end. -/
inductive Interruption
  | error (error : UsageError)
  /-- A switch asks for something else than a run. -/
  | request (name : String)
deriving DecidableEq, Repr

/-- Switches with their values, operands, and the arguments that were not read. -/
structure Arguments where
  values : Entries String := []
  operands : List String := []
  unread : List String := []
deriving DecidableEq, Repr

namespace Arguments

/-- The value of a switch. -/
def value? (a : Arguments) (name : String) : Option String := a.values.find? name

/-- Whether a switch is given. -/
def has (a : Arguments) (name : String) : Bool := (a.value? name).isSome

/-- Adds a switch with its value. -/
def give (a : Arguments) (s : Switch) (value : String) : Except Interruption Arguments :=
  if s.value = .request then .error (.request s.name)
  else if a.has s.name then .error (.error (.repeated s.name))
  else if s.value = .path ∧ value.isEmpty then .error (.error (.emptyValue s.name))
  else .ok { a with values := a.values.put s.name value }

/-- Whether an argument is written as a switch; a dash alone is not. -/
def isSwitch (argument : String) : Bool :=
  match argument.toList with
  | ['-'] => false
  | '-' :: _ => true
  | _ => false

/-- The name of a long switch, with the value behind an equals sign. -/
def long? (argument : String) : Option (String × Option String) :=
  match argument.toList with
  | '-' :: '-' :: r =>
    let name := String.ofList (r.takeWhile (· ≠ '='))
    match r.dropWhile (· ≠ '=') with
    | [] => some (name, none)
    | _ :: value => some (name, some (String.ofList value))
  | _ => none

/-- Adds the flags that letters stand for. -/
def giveLetters (switches : List Switch) (a : Arguments) :
    List Char → Except Interruption Arguments
  | [] => .ok a
  | c :: r =>
    match switches.find? fun s => s.letter == some c with
    | some s => (a.give s "").bind fun a => giveLetters switches a r
    | none => .error (.error (.unknownSwitch (String.ofList ['-', c])))

/-- Adds operands, at most `count` in all. -/
def addOperands (count : Nat) (a : Arguments) : List String → Except Interruption Arguments
  | [] => .ok a
  | s :: r =>
    if a.operands.length < count then addOperands count { a with operands := a.operands ++ [s] } r
    else .error (.error (.unexpected s))

/-- What an argument that is not an operand asks for. -/
inductive Request
  /-- A switch with its value. -/
  | given (switch : Switch) (value : String)
  /-- A switch with its value in the next argument. -/
  | awaiting (switch : Switch)
deriving DecidableEq, Repr

/-- What a long switch asks for, given its name and the value behind an equals sign. -/
def request (switches : List Switch) (name : String) (attached : Option String) :
    Except Interruption Request :=
  match switches.find? fun s => s.name == name with
  | none => .error (.error (.unknownSwitch ("--" ++ name)))
  | some s =>
    match s.takesValue, attached with
    | true, some value => .ok (.given s value)
    | true, none => .ok (.awaiting s)
    | false, some _ => .error (.error (.unexpectedValue name))
    | false, none => .ok (.given s "")

/-- Reads arguments onto those already read; `awaiting` is a switch that still lacks its value.
    With a `count`, at most so many arguments are operands; without one, the first operand ends the
    reading. -/
def read (switches : List Switch) (count : Option Nat) (awaiting : Option Switch)
    (a : Arguments) : List String → Except Interruption Arguments
  | [] =>
    match awaiting with
    | some t => .error (.error (.missingValue t.name))
    | none => .ok a
  | s :: r =>
    match awaiting with
    | some t =>
      if isSwitch s then .error (.error (.missingValue t.name))
      else (a.give t s).bind fun a => read switches count none a r
    | none =>
      if s = "--" then addOperands (count.getD 0) a r
      else if isSwitch s then
        match long? s with
        | some (name, attached) =>
          (request switches name attached).bind fun
            | .given t value => (a.give t value).bind fun a => read switches count none a r
            | .awaiting t => read switches count (some t) a r
        | none =>
          (a.giveLetters switches (s.toList.drop 1)).bind fun a => read switches count none a r
      else
        match count with
        | none => .ok { a with unread := s :: r }
        | some n => (addOperands n a [s]).bind fun a => read switches count none a r

end Arguments

end AlterScript
