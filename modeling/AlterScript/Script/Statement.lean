/-
  Statements of a script: the text of a command with its tags, and whether it takes effect.
-/
import AlterScript.Cql.Command

namespace AlterScript

/-- A statement of a script. -/
structure Statement where
  text : String
  active : Bool
  action : Action
  level : Level
deriving DecidableEq, Repr

namespace Statement

/-- Whether the statement says nothing. -/
def isBlank (s : Statement) : Bool := Text.isBlank s.text

/-- A drop that would drop something. -/
def isDestructive (s : Statement) : Bool := s.action == .drop && !s.isBlank

/-- The statement as a comment. -/
def commentedOut (s : Statement) : Statement :=
  { s with text := Text.commentOut s.text, active := false }

end Statement

namespace Command

/-- The statement of a command. -/
def statement (c : Command) : Statement := ⟨c.text, true, c.action, c.level⟩

@[simp] theorem active_statement (c : Command) : c.statement.active = true := rfl

@[simp] theorem text_statement (c : Command) : c.statement.text = c.text := rfl

@[simp] theorem action_statement (c : Command) : c.statement.action = c.action := rfl

@[simp] theorem level_statement (c : Command) : c.statement.level = c.level := rfl

end Command

end AlterScript
