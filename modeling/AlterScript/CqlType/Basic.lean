/-
  CQL types and their texts.
-/
import AlterScript.Text.Lines

namespace AlterScript

/-- A type of a column. Map keys are of a named type. -/
inductive CqlType
  | named (name : String)
  | frozen (type : CqlType)
  | list (item : CqlType)
  | set (item : CqlType)
  | map (key : String) (value : CqlType)
  | tuple (members : List CqlType)
deriving Repr

namespace CqlType

mutual

/-- The text of a type. -/
def text : CqlType → String
  | named name => name
  | frozen t => "frozen<" ++ text t ++ ">"
  | list t => "list<" ++ text t ++ ">"
  | set t => "set<" ++ text t ++ ">"
  | map key t => "map<" ++ key ++ ", " ++ text t ++ ">"
  | tuple ts => "tuple<" ++ Text.join ", " (texts ts) ++ ">"
termination_by structural t => t

def texts : List CqlType → List String
  | [] => []
  | t :: ts => text t :: texts ts
termination_by structural ts => ts

end

theorem texts_eq_map (ts : List CqlType) : texts ts = ts.map text := by
  induction ts with
  | nil => rfl
  | cons t ts ih => simp [texts, ih]

/-- A type, frozen if asked for. -/
def freeze (frozen : Bool) (t : CqlType) : CqlType := if frozen then .frozen t else t

end CqlType

end AlterScript
