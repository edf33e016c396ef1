/-
  From statements to a script: duplicates are dropped, drops are commented out unless they are to be
  applied, and the rest is put into one order.

  `mem_distinct` and `nodup_distinct`: every statement stays once. `mem_inOrder`: ordering loses and
  invents nothing.
-/
import AlterScript.Script.Statement

namespace AlterScript

namespace Script

/-! ## Duplicates -/

/-- Every statement at the place where it stands first. -/
def distinct : List Statement → List Statement
  | [] => []
  | s :: r => s :: (distinct r).filter (· ≠ s)

@[simp] theorem mem_distinct (s : Statement) (ss : List Statement) :
    s ∈ distinct ss ↔ s ∈ ss := by
  induction ss with
  | nil => simp [distinct]
  | cons t r ih => by_cases h : s = t <;> simp [distinct, h, ih]

theorem nodup_distinct (ss : List Statement) : (distinct ss).Nodup := by
  induction ss with
  | nil => simp [distinct]
  | cons t r ih =>
    rw [distinct, List.nodup_cons]
    exact ⟨by simp, ih.sublist List.filter_sublist⟩

/-! ## Drops -/

/-- Comments out the destructive statements, unless drops are applied. -/
def gate (applyDrops : Bool) (ss : List Statement) : List Statement :=
  if applyDrops then ss
  else ss.map fun s => if s.isDestructive then s.commentedOut else s

@[simp] theorem gate_true (ss : List Statement) : gate true ss = ss := rfl

/-! ## Order -/

/-- What a statement does to what kind of object. -/
abbrev Slot := Level × Action

def slot (s : Statement) : Slot := (s.level, s.action)

/-- The order of the slots. What depends on others is dropped before them and added after them. -/
def precedence : List Slot :=
  [(.keyspace, .add), (.keyspace, .modify),
    (.view, .drop), (.index, .drop), (.renewal, .drop), (.table, .drop), (.userType, .drop),
    (.userType, .add), (.userType, .modify),
    (.table, .add), (.table, .modify),
    (.field, .drop), (.field, .add), (.field, .modify),
    (.index, .add), (.index, .modify), (.renewal, .add),
    (.view, .add), (.view, .modify),
    (.function, .drop), (.function, .add), (.function, .modify),
    (.keyspace, .drop)]

theorem nodup_precedence : precedence.Nodup := by decide

/-- The statements slot by slot, within a slot in their own order; those of no slot at the end. -/
def inOrder (ss : List Statement) : List Statement :=
  precedence.flatMap (fun p => ss.filter (slot · = p)) ++ ss.filter (slot · ∉ precedence)

@[simp] theorem mem_inOrder (s : Statement) (ss : List Statement) : s ∈ inOrder ss ↔ s ∈ ss := by
  by_cases h : slot s ∈ precedence <;> simp [inOrder, h]

/-! ## Text -/

/-- The statements that say something, separated by empty lines. -/
def text (ss : List Statement) : String :=
  Text.join "\n\n" ((ss.filter fun s => !s.isBlank).map Statement.text)

/-- The statements of a script, from those that were generated. -/
def ofStatements (applyDrops : Bool) (ss : List Statement) : List Statement :=
  inOrder (gate applyDrops (distinct ss))

end Script

end AlterScript
