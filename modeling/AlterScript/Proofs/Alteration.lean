/-
  What statements for columns do to a table.

  `Alteration.read?_command`: the statement for an alteration can be read back from its text, with
  the table that it is about. `Schema.run` executes the statements of a script on the columns of one
  table. `applyAll_of_disjoint`: alterations that have no name in common can be made in any order,
  and each has the effect that it has alone.
-/
import Mathlib.Data.List.Basic
import Mathlib.Logic.Function.Basic
import AlterScript.Script.Statement

namespace AlterScript

/-- A change to one column of a table. -/
inductive Alteration
  | drop (name : String)
  | add (column : Column)
  | rename (old new : String)
  | convert (column : Column)
deriving DecidableEq, Repr

/-- The columns of a table by name, each with the text of its type. -/
abbrev Schema := String → Option String

namespace Alteration

/-! ## Effect -/

/-- Whether an alteration can be made: what it changes is there, and what it makes is not. -/
def applies : Alteration → Schema → Bool
  | drop name, σ => (σ name).isSome
  | add column, σ => (σ column.name).isNone
  | rename old new, σ => (σ old).isSome && (σ new).isNone
  | convert column, σ => (σ column.name).isSome

/-- The columns after an alteration. -/
def after : Alteration → Schema → Schema
  | drop name, σ => Function.update σ name none
  | add column, σ => Function.update σ column.name (some column.type)
  | rename old new, σ => Function.update (Function.update σ old none) new (σ old)
  | convert column, σ => Function.update σ column.name (some column.type)

/-- The columns after an alteration that can be made. -/
def apply (a : Alteration) (σ : Schema) : Option Schema :=
  if a.applies σ then some (a.after σ) else none

/-- The columns after alterations that are made one after the other. -/
def applyAll : List Alteration → Schema → Option Schema
  | [], σ => some σ
  | a :: as, σ => (a.apply σ).bind (applyAll as)

/-- The names that an alteration looks at. -/
def names : Alteration → List String
  | drop name => [name]
  | add column => [column.name]
  | rename old new => [old, new]
  | convert column => [column.name]

/-! ## Phases -/

/-- In a script the drops of columns come first, and the renamings and conversions last. -/
def phase : Alteration → Nat
  | drop _ => 0
  | add _ => 1
  | rename _ _ => 2
  | convert _ => 2

/-- The alterations of one phase. -/
def ofPhase (k : Nat) (as : List Alteration) : List Alteration := as.filter (phase · = k)

theorem mem_ofPhase_iff {k : Nat} {as : List Alteration} {a : Alteration} :
    a ∈ ofPhase k as ↔ a ∈ as ∧ a.phase = k := by
  rw [ofPhase, List.mem_filter, decide_eq_true_eq]

theorem eq_phases {as : List Alteration} (h : as.Pairwise fun a b => a.phase ≤ b.phase) :
    as = ofPhase 0 as ++ (ofPhase 1 as ++ ofPhase 2 as) := by
  induction as with
  | nil => rfl
  | cons a as ih =>
    obtain ⟨ha, has⟩ := List.pairwise_cons.1 h
    have hnone : ∀ k, k < a.phase → ofPhase k as = [] := by
      intro k hk
      rw [ofPhase, List.filter_eq_nil_iff]
      intro b hb
      have := ha b hb
      rw [decide_eq_true_eq]
      omega
    have hcons : ∀ k, ofPhase k (a :: as) = if a.phase = k then a :: ofPhase k as
        else ofPhase k as := by
      intro k
      rw [ofPhase, List.filter_cons]
      simp only [decide_eq_true_eq]
      rfl
    have hle : a.phase = 0 ∨ a.phase = 1 ∨ a.phase = 2 := by cases a <;> simp [phase]
    have ih := ih has
    rw [hcons, hcons, hcons]
    rcases hle with h0 | h1 | h2
    · rw [if_pos h0, if_neg (by omega), if_neg (by omega), List.cons_append, ← ih]
    · rw [if_neg (by omega), if_pos h1, if_neg (by omega), hnone 0 (by omega)]
      rw [hnone 0 (by omega)] at ih
      simpa using ih
    · rw [if_neg (by omega), if_neg (by omega), if_pos h2, hnone 0 (by omega),
        hnone 1 (by omega)]
      rw [hnone 0 (by omega), hnone 1 (by omega)] at ih
      simpa using ih

/-! ## Independence -/

theorem applies_congr {a : Alteration} {σ τ : Schema} (h : ∀ n ∈ a.names, σ n = τ n) :
    a.applies σ = a.applies τ := by
  cases a with
  | drop name => rw [applies, applies, h name (by simp [names])]
  | add column => rw [applies, applies, h column.name (by simp [names])]
  | rename old new =>
    rw [applies, applies, h old (by simp [names]), h new (by simp [names])]
  | convert column => rw [applies, applies, h column.name (by simp [names])]

/-- What an alteration makes of its names depends on these names only. -/
theorem after_congr {a : Alteration} {σ τ : Schema} (h : ∀ n ∈ a.names, σ n = τ n) {n : String}
    (hn : n ∈ a.names) : a.after σ n = a.after τ n := by
  cases a with
  | drop name =>
    obtain rfl : n = name := by simpa [names] using hn
    simp only [after, Function.update_self]
  | add column =>
    obtain rfl : n = column.name := by simpa [names] using hn
    simp only [after, Function.update_self]
  | rename old new =>
    by_cases hnew : n = new
    · subst hnew
      simp only [after, Function.update_self]
      exact h old (by simp [names])
    · obtain rfl : n = old := by simpa [names, hnew] using hn
      simp only [after, Function.update_of_ne hnew, Function.update_self]
  | convert column =>
    obtain rfl : n = column.name := by simpa [names] using hn
    simp only [after, Function.update_self]

/-- An alteration leaves all other names alone. -/
theorem after_of_notMem {a : Alteration} {n : String} (hn : n ∉ a.names) (σ : Schema) :
    a.after σ n = σ n := by
  cases a with
  | drop name =>
    have : n ≠ name := by simpa [names] using hn
    simp only [after, Function.update_of_ne this]
  | add column =>
    have : n ≠ column.name := by simpa [names] using hn
    simp only [after, Function.update_of_ne this]
  | rename old new =>
    obtain ⟨hold, hnew⟩ : n ≠ old ∧ n ≠ new := by simpa [names] using hn
    simp only [after, Function.update_of_ne hnew, Function.update_of_ne hold]
  | convert column =>
    have : n ≠ column.name := by simpa [names] using hn
    simp only [after, Function.update_of_ne this]

/-- Alterations without a name in common, each of which can be made, can be made one after the
    other. Each has the effect that it has alone, and names of none of them are left alone. -/
theorem applyAll_of_disjoint {as : List Alteration} {σ : Schema}
    (hdisjoint : as.Pairwise fun a b => a.names.Disjoint b.names)
    (happlies : ∀ a ∈ as, a.applies σ = true) :
    ∃ τ, applyAll as σ = some τ ∧
      (∀ a ∈ as, ∀ n ∈ a.names, τ n = a.after σ n) ∧
      (∀ n, (∀ a ∈ as, n ∉ a.names) → τ n = σ n) := by
  induction as generalizing σ with
  | nil => exact ⟨σ, rfl, by simp, fun _ _ => rfl⟩
  | cons a as ih =>
    obtain ⟨ha, has⟩ := List.pairwise_cons.1 hdisjoint
    -- What comes later does not see that `a` has been made.
    have hsame : ∀ b ∈ as, ∀ n ∈ b.names, a.after σ n = σ n := fun b hb n hn =>
      after_of_notMem (fun hna => ha b hb hna hn) σ
    have hlater : ∀ b ∈ as, b.applies (a.after σ) = true := by
      intro b hb
      rw [applies_congr (hsame b hb)]
      exact happlies b (List.mem_cons_of_mem a hb)
    obtain ⟨τ, hτ, hnames, hothers⟩ := ih has hlater
    refine ⟨τ, ?_, ?_, ?_⟩
    · rw [applyAll, apply, if_pos (happlies a List.mem_cons_self)]
      exact hτ
    · intro b hb n hn
      rcases List.mem_cons.1 hb with rfl | hb
      · exact hothers n fun c hc hnc => ha c hc hn hnc
      · rw [hnames b hb n hn]
        exact after_congr (hsame b hb) hn
    · intro n hn
      rw [hothers n fun b hb => hn b (List.mem_cons_of_mem a hb)]
      exact after_of_notMem (hn a List.mem_cons_self) σ

theorem applyAll_append (as bs : List Alteration) (σ : Schema) :
    applyAll (as ++ bs) σ = (applyAll as σ).bind (applyAll bs) := by
  induction as generalizing σ with
  | nil => rfl
  | cons a as ih =>
    rw [List.cons_append, applyAll, applyAll, Option.bind_assoc]
    congr 1
    funext τ
    exact ih τ

end Alteration

/-! ## Reading -/

namespace Text

/-- What stands behind a given beginning. -/
def behind? (beginning : String) (cs : List Char) : Option (List Char) :=
  beginning.toList.isPrefixOf? cs

theorem behind?_append (beginning : String) (rest : List Char) :
    behind? beginning (beginning.toList ++ rest) = some rest := by
  rw [behind?, List.isPrefixOf?_eq_some_iff_append_eq]

/-- A name between double quotes, with what stands behind it. -/
def name? : List Char → Option (String × List Char)
  | '"' :: cs => (undoubled '"' cs).map fun p => (String.ofList p.1, p.2)
  | _ => none

theorem name?_quotedName (s : String) {rest : List Char} (h : rest.head? ≠ some '"') :
    name? ((quotedName s).toList ++ rest) = some (s, rest) := by
  rw [toList_quotedName, List.cons_append, name?, List.append_assoc, List.singleton_append,
    undoubled_doubled '"' s.toList rest h, Option.map_some, String.ofList_toList]

/-- The text before a semicolon at the end. -/
def beforeSemicolon? (cs : List Char) : Option String :=
  if cs.getLast? = some ';' then some (String.ofList cs.dropLast) else none

theorem beforeSemicolon?_append (s : String) : beforeSemicolon? (s.toList ++ [';']) = some s := by
  rw [beforeSemicolon?, if_pos List.getLast?_concat, List.dropLast_concat, String.ofList_toList]

end Text

namespace QualifiedName

/-- A name, in a keyspace if there are two names with a point between them, with what stands behind
    it. -/
def read? (cs : List Char) : Option (QualifiedName × List Char) :=
  (Text.name? cs).bind fun p => match p.2 with
    | '.' :: r => (Text.name? r).map fun q => (⟨some p.1, q.1⟩, q.2)
    | r => some (⟨none, p.1⟩, r)

theorem read?_text (q : QualifiedName) {rest : List Char} (hquote : rest.head? ≠ some '"')
    (hpoint : rest.head? ≠ some '.') : read? (q.text.toList ++ rest) = some (q, rest) := by
  obtain ⟨keyspace, name⟩ := q
  cases keyspace with
  | none =>
    rw [read?, text, Text.name?_quotedName name hquote, Option.bind_some]
    cases rest with
    | nil => rfl
    | cons c rest =>
      have : c ≠ '.' := by simpa using hpoint
      split
      · rename_i heq
        exact absurd (List.cons.inj heq).1 this
      · rfl
  | some keyspace =>
    have htext : (QualifiedName.text ⟨some keyspace, name⟩).toList ++ rest =
        (Text.quotedName keyspace).toList ++ '.' :: ((Text.quotedName name).toList ++ rest) := by
      simp [text, String.toList_append]
    rw [read?, htext, Text.name?_quotedName keyspace (by simp), Option.bind_some]
    show (Text.name? ((Text.quotedName name).toList ++ rest)).map _ = _
    rw [Text.name?_quotedName name hquote]
    rfl

end QualifiedName

namespace Alteration

/-- The statement that makes an alteration to a table. -/
def command (q : QualifiedName) : Alteration → Command
  | drop name => .dropColumn q name
  | add column => .addColumn q column
  | rename old new => .renameColumn q old new
  | convert column => .alterColumnType q column

/-- What stands behind the name of the table in the statement for an alteration. -/
def clause : Alteration → List Char
  | drop name => " DROP ".toList ++ ((Text.quotedName name).toList ++ [';'])
  | add column =>
    " ADD ".toList ++ ((Text.quotedName column.name).toList ++
      (" ".toList ++ (column.type.toList ++ [';'])))
  | rename old new =>
    " RENAME ".toList ++ ((Text.quotedName old).toList ++
      (" TO ".toList ++ ((Text.quotedName new).toList ++ [';'])))
  | convert column =>
    " ALTER ".toList ++ ((Text.quotedName column.name).toList ++
      (" TYPE ".toList ++ (column.type.toList ++ [';'])))

theorem text_command (q : QualifiedName) (a : Alteration) :
    (a.command q).text.toList = "ALTER TABLE ".toList ++ (q.text.toList ++ a.clause) := by
  cases a with
  | drop name =>
    show ("ALTER TABLE " ++ q.text ++ " DROP " ++ Text.quotedName name ++ ";").toList = _
    simp only [String.toList_append, List.append_assoc]
    rfl
  | add column =>
    show ("ALTER TABLE " ++ q.text ++ " ADD "
      ++ (Text.quotedName column.name ++ " " ++ column.type) ++ ";").toList = _
    simp only [String.toList_append, List.append_assoc]
    rfl
  | rename old new =>
    show ("ALTER TABLE " ++ q.text ++ " RENAME " ++ Text.quotedName old ++ " TO "
      ++ Text.quotedName new ++ ";").toList = _
    simp only [String.toList_append, List.append_assoc]
    rfl
  | convert column =>
    show ("ALTER TABLE " ++ q.text ++ " ALTER " ++ Text.quotedName column.name ++ " TYPE "
      ++ column.type ++ ";").toList = _
    simp only [String.toList_append, List.append_assoc]
    rfl

def readDrop? (cs : List Char) : Option Alteration :=
  (Text.behind? " DROP " cs).bind fun r =>
  (Text.name? r).bind fun p => if p.2 = [';'] then some (drop p.1) else none

def readAdd? (cs : List Char) : Option Alteration :=
  (Text.behind? " ADD " cs).bind fun r =>
  (Text.name? r).bind fun p =>
  (Text.behind? " " p.2).bind fun r => (Text.beforeSemicolon? r).map fun type => add ⟨p.1, type⟩

def readRename? (cs : List Char) : Option Alteration :=
  (Text.behind? " RENAME " cs).bind fun r =>
  (Text.name? r).bind fun p =>
  (Text.behind? " TO " p.2).bind fun r =>
  (Text.name? r).bind fun q => if q.2 = [';'] then some (rename p.1 q.1) else none

def readConvert? (cs : List Char) : Option Alteration :=
  (Text.behind? " ALTER " cs).bind fun r =>
  (Text.name? r).bind fun p =>
  (Text.behind? " TYPE " p.2).bind fun r =>
  (Text.beforeSemicolon? r).map fun type => convert ⟨p.1, type⟩

def readClause? (cs : List Char) : Option Alteration :=
  readDrop? cs <|> readAdd? cs <|> readRename? cs <|> readConvert? cs

/-- The table and the alteration that the text of a statement is about. -/
def read? (cs : List Char) : Option (QualifiedName × Alteration) :=
  (Text.behind? "ALTER TABLE " cs).bind fun r =>
  (QualifiedName.read? r).bind fun p => (readClause? p.2).map fun a => (p.1, a)

theorem readDrop?_clause (name : String) : readDrop? (drop name).clause = some (drop name) := by
  show readDrop? (" DROP ".toList ++ ((Text.quotedName name).toList ++ [';'])) = _
  rw [readDrop?, Text.behind?_append, Option.bind_some,
    Text.name?_quotedName name (by simp), Option.bind_some, if_pos rfl]

theorem readAdd?_clause (column : Column) :
    readAdd? (add column).clause = some (add column) := by
  show readAdd? (" ADD ".toList ++ ((Text.quotedName column.name).toList ++
    (" ".toList ++ (column.type.toList ++ [';'])))) = _
  rw [readAdd?, Text.behind?_append, Option.bind_some,
    Text.name?_quotedName column.name (by simp), Option.bind_some, Text.behind?_append,
    Option.bind_some, Text.beforeSemicolon?_append]
  rfl

theorem readRename?_clause (old new : String) :
    readRename? (rename old new).clause = some (rename old new) := by
  show readRename? (" RENAME ".toList ++ ((Text.quotedName old).toList ++
    (" TO ".toList ++ ((Text.quotedName new).toList ++ [';'])))) = _
  rw [readRename?, Text.behind?_append, Option.bind_some,
    Text.name?_quotedName old (by simp), Option.bind_some, Text.behind?_append, Option.bind_some,
    Text.name?_quotedName new (by simp), Option.bind_some, if_pos rfl]

theorem readConvert?_clause (column : Column) :
    readConvert? (convert column).clause = some (convert column) := by
  show readConvert? (" ALTER ".toList ++ ((Text.quotedName column.name).toList ++
    (" TYPE ".toList ++ (column.type.toList ++ [';'])))) = _
  rw [readConvert?, Text.behind?_append, Option.bind_some,
    Text.name?_quotedName column.name (by simp), Option.bind_some, Text.behind?_append,
    Option.bind_some, Text.beforeSemicolon?_append]
  rfl

/-- The readers are tried one after the other; none of them takes the clause of another. -/
theorem readClause?_clause (a : Alteration) : readClause? a.clause = some a := by
  cases a with
  | drop name =>
    rw [readClause?, readDrop?_clause]
    rfl
  | add column =>
    rw [readClause?, readAdd?_clause]
    rfl
  | rename old new =>
    rw [readClause?, readRename?_clause]
    rfl
  | convert column =>
    rw [readClause?, readConvert?_clause]
    rfl

/-- A statement for an alteration is read back as what it is. -/
theorem read?_command (q : QualifiedName) (a : Alteration) :
    read? (a.command q).text.toList = some (q, a) := by
  have hhead : a.clause.head? = some ' ' := by cases a <;> rfl
  rw [text_command, read?, Text.behind?_append, Option.bind_some,
    QualifiedName.read?_text q (by simp [hhead]) (by simp [hhead]), Option.bind_some]
  show (readClause? a.clause).map _ = _
  rw [readClause?_clause]
  rfl

end Alteration

/-! ## Execution -/

namespace Schema

/-- The columns of a table after a statement. A statement for columns that takes effect changes the
    table that its text names; it has to be readable. Other statements change no columns. -/
def step (q : QualifiedName) (s : Statement) (σ : Schema) : Option Schema :=
  if s.active && s.level == .field then
    (Alteration.read? s.text.toList).bind fun p => if p.1 = q then p.2.apply σ else some σ
  else some σ

/-- The columns of a table after the statements of a script, from top to bottom. -/
def run (q : QualifiedName) : List Statement → Schema → Option Schema
  | [], σ => some σ
  | s :: ss, σ => (step q s σ).bind (run q ss)

end Schema

namespace Command

/-- The alteration that a command makes to a table. -/
def alterationOf (q : QualifiedName) : Command → Option Alteration
  | dropColumn t name => if t = q then some (.drop name) else none
  | addColumn t column => if t = q then some (.add column) else none
  | renameColumn t old new => if t = q then some (.rename old new) else none
  | alterColumnType t column => if t = q then some (.convert column) else none
  | _ => none

@[simp] theorem alterationOf_command (q t : QualifiedName) (a : Alteration) :
    (a.command t).alterationOf q = if t = q then some a else none := by
  cases a <;> rfl

@[simp] theorem level_command (q : QualifiedName) (a : Alteration) :
    (a.command q).level = .field := by
  cases a <;> rfl

theorem exists_alteration {c : Command} (h : c.level = .field) :
    ∃ (q : QualifiedName) (a : Alteration), c = a.command q := by
  cases c with
  | addColumn t column => exact ⟨t, .add column, rfl⟩
  | dropColumn t name => exact ⟨t, .drop name, rfl⟩
  | renameColumn t old new => exact ⟨t, .rename old new, rfl⟩
  | alterColumnType t column => exact ⟨t, .convert column, rfl⟩
  | _ => simp [level] at h

theorem alterationOf_of_level {c : Command} (h : c.level ≠ .field) (q : QualifiedName) :
    c.alterationOf q = none := by
  cases c <;> simp [level] at h <;> rfl

theorem alterationOf_eq_some_iff {c : Command} {q : QualifiedName} {a : Alteration} :
    c.alterationOf q = some a ↔ c = a.command q := by
  constructor
  · intro h
    by_cases hlevel : c.level = .field
    · obtain ⟨t, b, rfl⟩ := exists_alteration hlevel
      rw [alterationOf_command] at h
      split at h
      · rename_i ht
        rw [ht, Option.some.inj h]
      · simp at h
    · rw [alterationOf_of_level hlevel] at h
      simp at h
  · rintro rfl
    rw [alterationOf_command, if_pos rfl]

/-- A statement tells which alteration it is for. -/
theorem statement_eq_command_iff {c : Command} {q : QualifiedName} {a : Alteration} :
    c.statement = (a.command q).statement ↔ c = a.command q := by
  constructor
  · intro h
    have hlevel : c.level = .field := by
      have := congrArg Statement.level h
      rwa [level_statement, level_statement, level_command] at this
    obtain ⟨t, b, rfl⟩ := exists_alteration hlevel
    have htext : (b.command t).text = (a.command q).text := congrArg Statement.text h
    have hread := Alteration.read?_command t b
    rw [htext, Alteration.read?_command q a, Option.some.injEq, Prod.mk.injEq] at hread
    rw [hread.1, hread.2]
  · rintro rfl
    rfl

end Command

namespace Schema

theorem step_statement (q : QualifiedName) (c : Command) (σ : Schema) :
    step q c.statement σ = match c.alterationOf q with
      | some a => a.apply σ
      | none => some σ := by
  by_cases hlevel : c.level = .field
  · obtain ⟨t, a, rfl⟩ := Command.exists_alteration hlevel
    rw [step, Command.text_statement, Alteration.read?_command, Command.alterationOf_command,
      if_pos (by simp), Option.bind_some]
    by_cases ht : t = q
    · rw [if_pos ht, if_pos ht]
    · rw [if_neg ht, if_neg ht]
  · rw [step, if_neg (by simpa using hlevel), Command.alterationOf_of_level hlevel]

theorem run_statements (q : QualifiedName) (cs : List Command) (σ : Schema) :
    run q (cs.map Command.statement) σ =
      Alteration.applyAll (cs.filterMap (Command.alterationOf q)) σ := by
  induction cs generalizing σ with
  | nil => rfl
  | cons c cs ih =>
    rw [List.map_cons, run, step_statement]
    cases hc : c.alterationOf q with
    | none =>
      rw [List.filterMap_cons_none hc]
      exact ih σ
    | some a =>
      rw [List.filterMap_cons_some hc, Alteration.applyAll]
      congr 1
      funext τ
      exact ih τ

end Schema

end AlterScript
