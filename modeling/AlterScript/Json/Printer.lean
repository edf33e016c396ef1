/-
  Writing JSON text, on one line.
-/
import AlterScript.Json.Basic

namespace AlterScript

namespace Json

/-- A character inside a string: quotes, backslashes and control characters are escaped. -/
def escaped (c : Char) : String :=
  if c == '"' then "\\\""
  else if c == '\\' then "\\\\"
  else if c.toNat < 0x20 then
    let digits := Nat.toDigits 16 c.toNat
    "\\u" ++ String.ofList (List.replicate (4 - digits.length) '0' ++ digits)
  else c.toString

/-- A string with its quotes, written behind `acc`. -/
def writeString (acc s : String) : String :=
  s.toList.foldl (fun t c => t ++ escaped c) (acc ++ "\"") ++ "\""

mutual

/-- A value written behind `acc`. -/
def write (acc : String) : Json → String
  | null => acc ++ "null"
  | bool b => acc ++ (if b then "true" else "false")
  | num n => acc ++ n.text
  | str s => writeString acc s
  | arr js => writeItems (acc ++ "[") "" js ++ "]"
  | obj es => writeMembers (acc ++ "\x7b") "" es ++ "\x7d"

def writeItems (acc separator : String) : List Json → String
  | [] => acc
  | j :: r => writeItems (write (acc ++ separator) j) "," r

def writeMembers (acc separator : String) : List (String × Json) → String
  | [] => acc
  | (k, j) :: r => writeMembers (write (writeString (acc ++ separator) k ++ ":") j) "," r

end

/-- The text of a value. -/
def text (j : Json) : String := write "" j

end Json

end AlterScript
