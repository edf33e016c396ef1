/-
  The program.
-/
import AlterScript.CommandLine.Run

namespace AlterScript

/-- What a file holds. -/
def contentsOf (path : String) : IO FileContents := do
  match ← (IO.FS.readFile path).toBaseIO with
  | .ok s => return .text s
  | .error (.noFileOrDirectory ..) => return .missing
  | .error _ => return .unreadable

/-- What the standard input holds, if it is text. -/
def standardInput : IO (Option String) := do
  match ← ((← IO.getStdin).readToEnd).toBaseIO with
  | .ok s => return some s
  | .error _ => return none

/-- The inputs of a run. -/
def inputsOf (i : Invocation) : IO Inputs := do
  let paths := [i.settingsFile] ++ (if i.tree = "-" then [] else [i.tree]) ++ i.typeMap.toList
  let files ← paths.mapM fun path => return (path, ← contentsOf path)
  let standard ← if i.tree = "-" then standardInput else pure none
  return { file := fun path => (Entries.find? path files).getD .missing, standard }

/-- Says what went wrong. -/
def fail (message : String) : IO UInt32 := do
  IO.eprintln ("Error: " ++ message)
  return 1

/-- Prints or writes what a run gives. -/
def deliver : Except Failure Result → IO UInt32
  | .error e => fail e.message
  | .ok (.print s) => do
    IO.print s
    return 0
  | .ok (.warn s) => do
    IO.eprint s
    return 1
  | .ok (.write path s) => do
    match ← (IO.FS.writeFile path s).toBaseIO with
    | .ok _ => return 0
    | .error _ => fail (Failure.outputUnwritable path).message

end AlterScript

open AlterScript in
def main (args : List String) : IO UInt32 := do
  match Invocation.parse args with
  | .ok i => deliver (i.run (← inputsOf i))
  | .error (.request name) => do
    IO.print (Invocation.answerText name)
    return 0
  | .error (.error e) => do
    IO.eprintln ("error: " ++ e.message)
    return 2
