/-
  Runs of the program.

  A run takes what its files hold and gives what is printed and written. The settings come first,
  then the change tree, the references to user-defined types, and the script: the first of them
  that fails is the failure of the run.
-/
import AlterScript.CommandLine.Invocation
import AlterScript.Json.Reader
import AlterScript.Script.Compile
import AlterScript.Settings.Reader
import AlterScript.Yaml.Node

namespace AlterScript

/-- What is known of a file. -/
inductive FileContents
  | missing
  | unreadable
  | text (contents : String)
deriving DecidableEq, Repr

namespace FileContents

def text? : FileContents → Option String
  | text s => some s
  | _ => none

end FileContents

/-- What a run reads. -/
structure Inputs where
  file : String → FileContents
  /-- The standard input, if it is text. -/
  standard : Option String

/-- Why a run fails. -/
inductive Failure
  | settingsUnreadable (path : String)
  | settingsMalformed (path : String)
  | version (error : VersionError)
  | treeUnreadable (path : String)
  | inputUnreadable
  | treeMalformed
  | typeMapUnreadable (path : String)
  | typeMapMalformed (path : String)
  | compile (error : CompileError)
  | outputUnwritable (path : String)
deriving DecidableEq, Repr

namespace Failure

def message : Failure → String
  | settingsUnreadable path => "Failed to read config file " ++ path
  | settingsMalformed path => "Failed to parse config file " ++ path
  | version e => e.message
  | treeUnreadable path => "Failed to read change tree " ++ path
  | inputUnreadable => "Failed to read change tree from stdin"
  | treeMalformed => "Change tree is not valid JSON"
  | typeMapUnreadable path => "Failed to read type map " ++ path
  | typeMapMalformed path => "Type map " ++ path ++ " must be a JSON object of strings"
  | compile e => e.message
  | outputUnwritable path => "Failed to write script to " ++ path

end Failure

/-- What a run gives. -/
inductive Result
  /-- A text for the standard output, which may be empty. -/
  | print (text : String)
  /-- A text for a file. -/
  | write (path text : String)
  /-- A warning, with which the run does not count as successful. -/
  | warn (text : String)
deriving DecidableEq, Repr

namespace Invocation

variable (i : Invocation) (inputs : Inputs)

/-! ## Reading -/

/-- The settings file; one that is missing says nothing. -/
def settings : Except Failure Settings :=
  match inputs.file i.settingsFile with
  | .missing => .ok {}
  | .unreadable => .error (.settingsUnreadable i.settingsFile)
  | .text s =>
    match (Yaml.Document.ofText? s).bind Settings.ofYaml? with
    | some settings => .ok settings
    | none => .error (.settingsMalformed i.settingsFile)

/-- The mode of the run: the flags count more than the settings file. -/
def mode : Except Failure Mode := do
  let settings ← i.settings inputs
  let layers : List Layer := [.file settings, .flags i.flags]
  let resolved ← (Settings.ofLayers layers).resolve.mapError .version
  return resolved.mode

/-- The text of the change tree. -/
def treeText : Except Failure String :=
  if i.tree = "-" then
    match inputs.standard with
    | some s => .ok s
    | none => .error .inputUnreadable
  else
    match (inputs.file i.tree).text? with
    | some s => .ok s
    | none => .error (.treeUnreadable i.tree)

/-- The change tree. -/
def root : Except Failure Json := do
  let s ← i.treeText inputs
  match Json.ofText? s with
  | some j => return j
  | none => throw .treeMalformed

/-- The references to user-defined types. -/
def references : Except Failure References :=
  match i.typeMap with
  | none => .ok .empty
  | some path =>
    match (inputs.file path).text? with
    | none => .error (.typeMapUnreadable path)
    | some s =>
      match References.ofText? s with
      | some r => .ok r
      | none => .error (.typeMapMalformed path)

/-! ## Output -/

/-- The list of the drops of a script. -/
def dropReport (drops : List Statement) : String :=
  "warning: Migration contains " ++ toString drops.length ++ " destructive statement(s):\n"
    ++ String.join (drops.map fun s => "  " ++ s.text ++ "\n")

/-- A run. -/
def run : Except Failure Result := do
  let mode ← i.mode inputs
  let root ← i.root inputs
  let references ← i.references inputs
  match i.purpose with
  | .compile output =>
    let script ← (Script.compile Resolver.builtin references mode root).mapError .compile
    match output with
    | some path => return .write path (script ++ "\n")
    | none => return .print (if script.isEmpty then "" else script ++ "\n")
  | .checkDrops =>
    let isDestructive ←
      (Script.isDestructive Resolver.builtin references mode root).mapError .compile
    if isDestructive then
      let drops ← (Script.drops Resolver.builtin references mode root).mapError .compile
      return .warn (dropReport drops)
    else return .print "✓ No destructive statements\n"

end Invocation

end AlterScript
