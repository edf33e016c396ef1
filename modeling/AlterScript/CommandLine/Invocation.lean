/-
  The commands of the program.

  `compile` makes a script from a change tree; `check-drops` tells whether the script would drop
  anything.
-/
import AlterScript.CommandLine.Arguments
import AlterScript.Settings.Basic

namespace AlterScript

/-- What is made of a change tree. -/
inductive Purpose
  /-- The script, written to a file or else printed. -/
  | compile (output : Option String)
  /-- The drops, counted and listed. -/
  | checkDrops
deriving DecidableEq, Repr

/-- A run of the program. -/
structure Invocation where
  purpose : Purpose
  /-- The file of the change tree; a dash means the standard input. -/
  tree : String
  /-- A file with references to user-defined types. -/
  typeMap : Option String := none
  settingsFile : String
  flags : Flags := {}
deriving DecidableEq, Repr

namespace Invocation

/-- The settings file that is read unless another is named. -/
def defaultSettingsFile : String := "cqlmt.yaml"

/-! ## Switches -/

/-- Switches that stand before a command or behind it. -/
def commonSwitches : List Switch :=
  [{ name := "config-file", value := .text }, { name := "verbose", letter := some 'v' },
    { name := "quiet", letter := some 'q' }, { name := "debug" },
    { name := "help", letter := some 'h', value := .request }]

/-- Switches before the command. -/
def programSwitches : List Switch :=
  commonSwitches ++ [{ name := "version", letter := some 'V', value := .request }]

def checkSwitches : List Switch :=
  commonSwitches ++ [{ name := "type-map", value := .path }, { name := "old-model" }]

def compileSwitches : List Switch :=
  checkSwitches ++ [{ name := "apply-drops" }, { name := "skip-modified-containers" },
    { name := "output", value := .path }]

/-- The switches of a command. -/
def switches? (command : String) : Option (List Switch) :=
  match command with
  | "compile" => some compileSwitches
  | "check-drops" => some checkSwitches
  | _ => none

/-! ## Reading -/

/-- The run that the arguments before and behind the name of a command ask for. A common switch
    behind the name counts more than one before it. -/
def ofArguments (command : String) (before behind : Arguments) : Except Interruption Invocation :=
  match behind.operands.head? with
  | none => .error (.error .noTree)
  | some tree =>
    .ok
      { purpose := if command = "compile" then .compile (behind.value? "output") else .checkDrops
        tree := tree
        typeMap := behind.value? "type-map"
        settingsFile :=
          (behind.value? "config-file" <|> before.value? "config-file").getD defaultSettingsFile
        flags :=
          { applyDrops := behind.has "apply-drops"
            legacy := behind.has "old-model"
            skipKeyspaces := behind.has "skip-modified-containers" } }

/-- Help on the program or on one of its commands. -/
def help : List String → Interruption
  | [] => .request "help"
  | [command] =>
    if command = "help" ∨ (switches? command).isSome then .request "help"
    else .error (.unknownCommand command)
  | _ :: s :: _ => .error (.unknownCommand s)

/-- The run that arguments ask for. -/
def parse (args : List String) : Except Interruption Invocation := do
  let before ← Arguments.read programSwitches none none {} args
  match before.unread with
  | [] => .error (.error .noCommand)
  | "help" :: r => .error (help r)
  | command :: r =>
    match switches? command with
    | none => .error (.error (.unknownCommand command))
    | some switches => ofArguments command before (← Arguments.read switches (some 1) none {} r)

/-! ## Help -/

/-- What the program prints when it is asked for help. -/
def helpText : String :=
  "Usage: cqlmt [SWITCHES] compile <TREE> [--type-map FILE] [--apply-drops] [--old-model]\n"
    ++ "             [--skip-modified-containers] [--output FILE]\n"
    ++ "       cqlmt [SWITCHES] check-drops <TREE> [--type-map FILE] [--old-model]\n"
    ++ "Switches: --config-file FILE, -v/--verbose, -q/--quiet, --debug, -h/--help, -V/--version\n"

def versionText : String := "cqlmt 0.1.0\n"

/-- What the program prints when a switch asks for something else than a run. -/
def answerText (request : String) : String :=
  if request = "version" then versionText else helpText

end Invocation

end AlterScript
