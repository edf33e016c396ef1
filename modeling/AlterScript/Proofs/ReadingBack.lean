/-
  Statements that are read back from their texts.

  A quoted name ends where its quote does not stand twice, whatever characters it has. So a text of
  keywords, names and one type at its end says what it was made from: `Command.read?_text`. Two
  commands with such texts have one text only if they are the same command, where a blank keyspace
  is none: `Command.text_eq_iff`.
-/
import Mathlib.Data.List.Nodup
import AlterScript.Proofs.Alteration
import AlterScript.Script.Order

namespace AlterScript

namespace Text

/-! ## Beginnings -/

/-- No beginning is the beginning of another. -/
def PrefixFree (beginnings : List String) : Prop :=
  beginnings.Pairwise fun b b' => ¬ b.toList <+: b'.toList ∧ ¬ b'.toList <+: b.toList

instance (beginnings : List String) : Decidable (PrefixFree beginnings) :=
  inferInstanceAs (Decidable (List.Pairwise _ _))

/-- What stands behind the first beginning that a text has, read by the reader for it. -/
def readBy {α : Type} : List (String × (List Char → Option α)) → List Char → Option α
  | [], _ => none
  | r :: rs, cs =>
    match behind? r.1 cs with
    | some rest => r.2 rest
    | none => readBy rs cs

/-- Where no beginning is the beginning of another, no other reader comes first. -/
theorem readBy_append {α : Type} {readers : List (String × (List Char → Option α))}
    (hfree : PrefixFree (readers.map Prod.fst)) {beginning : String}
    {reader : List Char → Option α} (hr : (beginning, reader) ∈ readers) (rest : List Char) :
    readBy readers (beginning.toList ++ rest) = reader rest := by
  induction readers with
  | nil => cases hr
  | cons r rs ih =>
    obtain ⟨hfirst, hfree⟩ := List.pairwise_cons.1 hfree
    rcases List.mem_cons.1 hr with rfl | hr
    · rw [readBy, behind?_append]
    · have hnone : behind? r.1 (beginning.toList ++ rest) = none := by
        rw [Option.eq_none_iff_forall_ne_some]
        intro behind hbehind
        have hprefix : r.1.toList <+: beginning.toList ++ rest :=
          ⟨behind, List.isPrefixOf?_eq_some_iff_append_eq.1 hbehind⟩
        obtain ⟨hb, hb'⟩ := hfirst beginning (List.mem_map_of_mem hr)
        rcases List.prefix_or_prefix_of_prefix hprefix
          (List.prefix_append beginning.toList rest) with h | h
        · exact hb h
        · exact hb' h
      rw [readBy, hnone]
      exact ih hfree hr

end Text

/-! ## Names -/

namespace QualifiedName

/-- A name with a semicolon behind it, and nothing else. -/
def readLast? (cs : List Char) : Option QualifiedName :=
  (read? cs).bind fun p => if p.2 = [';'] then some p.1 else none

theorem readLast?_text (q : QualifiedName) : readLast? (q.text.toList ++ [';']) = some q := by
  rw [readLast?, read?_text q (by simp) (by simp), Option.bind_some, if_pos rfl]

theorem of_eq_of_iff {keyspace keyspace' : Option String} {name name' : String} :
    QualifiedName.of keyspace name = QualifiedName.of keyspace' name' ↔
      keyspace.bind Text.nonBlank = keyspace'.bind Text.nonBlank ∧ name = name' := by
  rw [of, of, mk.injEq]

end QualifiedName

/-! ## Indexes -/

namespace Index

def readColumn? (cs : List Char) : Option (String × Option CollectionPart × List Char) :=
  (Text.name? cs).map fun p => (p.1, none, p.2)

def readPart? (part : CollectionPart) (cs : List Char) :
    Option (String × Option CollectionPart × List Char) :=
  (Text.behind? (part.keyword ++ "(") cs).bind fun r =>
  (Text.name? r).bind fun p => (Text.behind? ")" p.2).map fun r => (p.1, some part, r)

/-- The column that an index is on, with the part of it, and what stands behind them. -/
def readSubject? (cs : List Char) : Option (String × Option CollectionPart × List Char) :=
  readColumn? cs <|> readPart? .keys cs <|> readPart? .values cs <|> readPart? .entries cs
    <|> readPart? .full cs

theorem readPart?_subject (part : CollectionPart) (column : String) (rest : List Char) :
    readPart? part ((part.keyword ++ "(").toList ++
      ((Text.quotedName column).toList ++ (")".toList ++ rest))) =
      some (column, some part, rest) := by
  rw [readPart?, Text.behind?_append, Option.bind_some, Text.name?_quotedName column (by simp),
    Option.bind_some, Text.behind?_append, Option.map_some]

/-- The subject is read back; a part of a column starts with a keyword and not with a quote. -/
theorem readSubject?_subject (i : Index) {rest : List Char} (h : rest.head? ≠ some '"') :
    readSubject? (i.subject.toList ++ rest) = some (i.column, i.part, rest) := by
  obtain ⟨name, column, part⟩ := i
  cases part with
  | none =>
    rw [readSubject?, readColumn?, subject, Text.name?_quotedName column h]
    rfl
  | some part =>
    have htext : (Index.subject ⟨name, column, some part⟩).toList ++ rest =
        (part.keyword ++ "(").toList ++
          ((Text.quotedName column).toList ++ (")".toList ++ rest)) := by
      simp only [subject, String.toList_append, List.append_assoc]
    rw [htext]
    have hread := readPart?_subject part column rest
    cases part with
    | keys | values | entries | full =>
      rw [readSubject?, hread]
      rfl

/-- The table and the index that are named behind the beginning of a statement. -/
def read? (cs : List Char) : Option (QualifiedName × Index) :=
  (Text.name? cs).bind fun name =>
  (Text.behind? " ON " name.2).bind fun r =>
  (QualifiedName.read? r).bind fun table =>
  (Text.behind? " (" table.2).bind fun r =>
  (readSubject? r).bind fun s =>
    if s.2.2 = [')', ';'] then some (table.1, ⟨name.1, s.1, s.2.1⟩) else none

theorem read?_text (q : QualifiedName) (i : Index) :
    read? ((Text.quotedName i.name).toList ++ (" ON ".toList ++ (q.text.toList ++
      (" (".toList ++ (i.subject.toList ++ [')', ';']))))) = some (q, i) := by
  rw [read?, Text.name?_quotedName i.name (by simp), Option.bind_some, Text.behind?_append,
    Option.bind_some, QualifiedName.read?_text q (by simp) (by simp), Option.bind_some,
    Text.behind?_append, Option.bind_some, readSubject?_subject i (by simp), Option.bind_some,
    if_pos rfl]

end Index

/-! ## Alterations of types -/

namespace Alteration

/-- The statement that makes an alteration to a type. Fields of a type are not dropped. -/
def typeCommand? (q : QualifiedName) : Alteration → Option Command
  | drop _ => none
  | add field => some (.addTypeField q field)
  | rename old new => some (.renameTypeField q old new)
  | convert field => some (.alterTypeField q field)

/-- The object and the alteration that are named behind the beginning of a statement. -/
def readBehind? (cs : List Char) : Option (QualifiedName × Alteration) :=
  (QualifiedName.read? cs).bind fun p => (readClause? p.2).map fun a => (p.1, a)

theorem readBehind?_clause (q : QualifiedName) (a : Alteration) :
    readBehind? (q.text.toList ++ a.clause) = some (q, a) := by
  have hhead : a.clause.head? = some ' ' := by cases a <;> rfl
  rw [readBehind?, QualifiedName.read?_text q (by simp [hhead]) (by simp [hhead]),
    Option.bind_some, readClause?_clause, Option.map_some]

theorem text_typeCommand? {q : QualifiedName} {a : Alteration} {c : Command}
    (h : a.typeCommand? q = some c) :
    c.text.toList = "ALTER TYPE ".toList ++ (q.text.toList ++ a.clause) := by
  cases a with
  | drop name => cases h
  | add field =>
    obtain rfl := Option.some.inj h
    show ("ALTER TYPE " ++ q.text ++ " ADD "
      ++ (Text.quotedName field.name ++ " " ++ field.type) ++ ";").toList = _
    simp only [String.toList_append, List.append_assoc]
    rfl
  | rename old new =>
    obtain rfl := Option.some.inj h
    show ("ALTER TYPE " ++ q.text ++ " RENAME " ++ Text.quotedName old ++ " TO "
      ++ Text.quotedName new ++ ";").toList = _
    simp only [String.toList_append, List.append_assoc]
    rfl
  | convert field =>
    obtain rfl := Option.some.inj h
    show ("ALTER TYPE " ++ q.text ++ " ALTER " ++ Text.quotedName field.name ++ " TYPE "
      ++ field.type ++ ";").toList = _
    simp only [String.toList_append, List.append_assoc]
    rfl

end Alteration

/-! ## Commands -/

namespace Command

/-- What is written is keywords, quoted names and at most a type at the end: no definition, no
    options, and no names without quotes. -/
def isPlain : Command → Bool
  | addColumn _ _ | dropColumn _ _ | renameColumn _ _ _ | alterColumnType _ _ | dropTable _
  | createIndex _ _ | dropIndex _ _ | dropSearchIndex _ | dropKeyspace _ | dropView _ | dropType _
  | addTypeField _ _ | renameTypeField _ _ _ | alterTypeField _ _ => true
  | _ => false

/-- The command with the keyspace of an index as it is written: a blank one is none. -/
def written : Command → Command
  | dropIndex keyspace name => dropIndex (keyspace.bind Text.nonBlank) name
  | c => c

/-- The beginnings of commands that say nothing but a name, each with the command for a name. -/
def naming : List (String × (QualifiedName → Command)) :=
  [("DROP TABLE IF EXISTS ", dropTable),
    ("DROP INDEX IF EXISTS ", fun q => dropIndex q.keyspace q.name),
    ("DROP SEARCH INDEX ON ", dropSearchIndex),
    ("DROP KEYSPACE IF EXISTS ", fun q => dropKeyspace q.name),
    ("DROP MATERIALIZED VIEW IF EXISTS ", dropView),
    ("DROP TYPE IF EXISTS ", dropType)]

/-- The beginnings of plain commands, each with a reader for what stands behind it. -/
def readers : List (String × (List Char → Option Command)) :=
  [("ALTER TABLE ", fun cs => (Alteration.readBehind? cs).map fun p => p.2.command p.1),
    ("ALTER TYPE ", fun cs => (Alteration.readBehind? cs).bind fun p => p.2.typeCommand? p.1),
    ("CREATE INDEX IF NOT EXISTS ", fun cs => (Index.read? cs).map fun p => createIndex p.1 p.2)]
  ++ naming.map fun n => (n.1, fun cs => (QualifiedName.readLast? cs).map n.2)

/-- The plain command that a text is written for. -/
def read? (cs : List Char) : Option Command := Text.readBy readers cs

theorem prefixFree_readers : Text.PrefixFree (readers.map Prod.fst) := by decide

theorem read?_append {beginning : String} {reader : List Char → Option Command}
    (hr : (beginning, reader) ∈ readers) (rest : List Char) :
    read? (beginning.toList ++ rest) = reader rest :=
  Text.readBy_append prefixFree_readers hr rest

/-- A command that says nothing but a name is read back. -/
theorem read?_naming {n : String × (QualifiedName → Command)} (hn : n ∈ naming)
    (q : QualifiedName) : read? (n.1 ++ q.text ++ ";").toList = some (n.2 q) := by
  have hr : (n.1, fun cs => (QualifiedName.readLast? cs).map n.2) ∈ readers :=
    List.mem_append_right _ (List.mem_map_of_mem hn)
  have htext : (n.1 ++ q.text ++ ";").toList = n.1.toList ++ (q.text.toList ++ [';']) := by
    rw [String.toList_append, String.toList_append, List.append_assoc]
    rfl
  rw [htext, read?_append hr, QualifiedName.readLast?_text, Option.map_some]

/-- What drops an object says nothing but the name of the object. -/
theorem exists_naming {c : Command} (hdrop : c.action = .drop) (hfield : c.level ≠ .field) :
    ∃ n ∈ naming, ∃ q : QualifiedName, c.text = n.1 ++ q.text ++ ";" ∧ n.2 q = c.written := by
  cases c with
  | dropTable t => exact ⟨_, .head _, t, rfl, rfl⟩
  | dropIndex keyspace name =>
    exact ⟨_, .tail _ (.head _), QualifiedName.of keyspace name, rfl, rfl⟩
  | dropSearchIndex t => exact ⟨_, .tail _ (.tail _ (.head _)), t, rfl, rfl⟩
  | dropKeyspace name => exact ⟨_, .tail _ (.tail _ (.tail _ (.head _))), ⟨none, name⟩, rfl, rfl⟩
  | dropView t => exact ⟨_, .tail _ (.tail _ (.tail _ (.tail _ (.head _)))), t, rfl, rfl⟩
  | dropType t =>
    exact ⟨_, .tail _ (.tail _ (.tail _ (.tail _ (.tail _ (.head _))))), t, rfl, rfl⟩
  | dropColumn t name => exact absurd rfl hfield
  | _ => cases hdrop

theorem read?_drop {c : Command} (hdrop : c.action = .drop) (hfield : c.level ≠ .field) :
    read? c.text.toList = some c.written := by
  obtain ⟨n, hn, q, htext, hc⟩ := exists_naming hdrop hfield
  rw [htext, read?_naming hn, hc]

theorem read?_alteration (q : QualifiedName) (a : Alteration) :
    read? (a.command q).text.toList = some (a.command q) := by
  rw [Alteration.text_command, read?_append (.head _), Alteration.readBehind?_clause,
    Option.map_some]

theorem read?_typeCommand {q : QualifiedName} {a : Alteration} {c : Command}
    (h : a.typeCommand? q = some c) : read? c.text.toList = some c := by
  rw [Alteration.text_typeCommand? h, read?_append (.tail _ (.head _)),
    Alteration.readBehind?_clause, Option.bind_some, h]

theorem read?_createIndex (q : QualifiedName) (i : Index) :
    read? (createIndex q i).text.toList = some (createIndex q i) := by
  have htext : (createIndex q i).text.toList = "CREATE INDEX IF NOT EXISTS ".toList ++
      ((Text.quotedName i.name).toList ++ (" ON ".toList ++ (q.text.toList ++
        (" (".toList ++ (i.subject.toList ++ [')', ';']))))) := by
    show ("CREATE INDEX IF NOT EXISTS " ++ Text.quotedName i.name ++ " ON " ++ q.text ++ " ("
      ++ i.subject ++ ");").toList = _
    simp only [String.toList_append, List.append_assoc]
    rfl
  rw [htext, read?_append (.tail _ (.tail _ (.head _))), Index.read?_text, Option.map_some]

/-- A plain command is read back from its text. -/
theorem read?_text {c : Command} (h : c.isPlain = true) : read? c.text.toList = some c.written := by
  cases c with
  | addColumn t column => exact read?_alteration t (.add column)
  | dropColumn t name => exact read?_alteration t (.drop name)
  | renameColumn t old new => exact read?_alteration t (.rename old new)
  | alterColumnType t column => exact read?_alteration t (.convert column)
  | addTypeField t field => exact read?_typeCommand (a := .add field) rfl
  | renameTypeField t old new => exact read?_typeCommand (a := .rename old new) rfl
  | alterTypeField t field => exact read?_typeCommand (a := .convert field) rfl
  | createIndex t i => exact read?_createIndex t i
  | dropTable _ | dropIndex _ _ | dropSearchIndex _ | dropKeyspace _ | dropView _ | dropType _ =>
    exact read?_drop rfl fun h => Level.noConfusion h
  | _ => cases h

theorem text_written (c : Command) : c.written.text = c.text := by
  cases c with
  | dropIndex keyspace name =>
    have hname := QualifiedName.of_keyspace_of keyspace name name
    exact congrArg (fun q => "DROP INDEX IF EXISTS " ++ QualifiedName.text q ++ ";") hname
  | _ => rfl

theorem statement_written (c : Command) : c.written.statement = c.statement := by
  rw [statement, statement, text_written]
  cases c <;> rfl

theorem text_eq_iff {c d : Command} (hc : c.isPlain = true) (hd : d.isPlain = true) :
    c.text = d.text ↔ c.written = d.written := by
  constructor
  · intro h
    have hread := read?_text hc
    rw [h, read?_text hd] at hread
    exact (Option.some.inj hread).symm
  · intro h
    rw [← text_written c, ← text_written d, h]

/-- What is written for a command decides what it does, and to what kind of object. -/
theorem statement_eq_iff {c d : Command} (hc : c.isPlain = true) (hd : d.isPlain = true) :
    c.statement = d.statement ↔ c.written = d.written := by
  constructor
  · intro h
    exact (text_eq_iff hc hd).1 (congrArg Statement.text h)
  · intro h
    rw [← statement_written c, ← statement_written d, h]

end Command

/-! ## Duplicates -/

namespace Script

theorem distinct_eq_self_iff {ss : List Statement} : distinct ss = ss ↔ ss.Nodup := by
  refine ⟨fun h => h ▸ nodup_distinct ss, fun h => ?_⟩
  induction ss with
  | nil => rfl
  | cons s r ih =>
    obtain ⟨hs, hr⟩ := List.nodup_cons.1 h
    rw [distinct, ih hr, List.filter_eq_self.2]
    intro x hx
    exact decide_eq_true fun heq => hs (heq ▸ hx)

/-- Plain commands have one text only if they are the same command with the same names, types and
    parts of columns, where a keyspace that is blank is none. So no statement for them is left out
    as a duplicate unless a command is given twice. -/
theorem distinct_only_duplicates {cs : List Command} (hcs : ∀ c ∈ cs, c.isPlain = true) :
    (∀ c ∈ cs, ∀ d ∈ cs, c.text = d.text ↔ c.written = d.written) ∧
    (distinct (cs.map Command.statement) = cs.map Command.statement ↔
      (cs.map Command.written).Nodup) ∧
    ∀ keyspace keyspace' name name',
      QualifiedName.of keyspace name = QualifiedName.of keyspace' name' ↔
        keyspace.bind Text.nonBlank = keyspace'.bind Text.nonBlank ∧ name = name' := by
  refine ⟨fun c hc d hd => Command.text_eq_iff (hcs c hc) (hcs d hd), ?_,
    fun _ _ _ _ => QualifiedName.of_eq_of_iff⟩
  rw [distinct_eq_self_iff, List.Nodup, List.pairwise_map, List.Nodup, List.pairwise_map]
  exact List.Pairwise.iff_of_mem fun hc hd =>
    not_congr (Command.statement_eq_iff (hcs _ hc) (hcs _ hd))

/-- Names that look like the text around them, and two ways to name no keyspace. -/
def lookalikes : List Command :=
  [.dropTable (QualifiedName.of (some "a") "b"), .dropTable (QualifiedName.of none "a\".\"b"),
    .dropColumn (QualifiedName.of none "t") "x\"; DROP TABLE \"t",
    .addColumn (QualifiedName.of none "t") ⟨"x\" text, \"y", "int"⟩,
    .dropIndex none "i", .dropIndex (some " ") "i"]

/-- The names do not deceive, and the two drops of the index are one. -/
theorem distinct_only_duplicates_lookalikes :
    (∀ c ∈ lookalikes, c.isPlain = true) ∧
    ((Command.dropTable ⟨some "a", "b"⟩).text ≠ (Command.dropTable ⟨none, "a\".\"b"⟩).text) ∧
    distinct (lookalikes.map Command.statement) ≠ lookalikes.map Command.statement ∧
    distinct (lookalikes.dropLast.map Command.statement) =
      lookalikes.dropLast.map Command.statement := by
  have hplain : ∀ c ∈ lookalikes, c.isPlain = true := by decide
  obtain ⟨htext, hdistinct, _⟩ := distinct_only_duplicates hplain
  refine ⟨hplain, fun h => ?_, fun h => ?_, ?_⟩
  · have := (htext _ (.head _) _ (.tail _ (.head _))).1 h
    exact absurd this (by decide)
  · exact absurd (hdistinct.1 h) (by decide)
  · have hplain : ∀ c ∈ lookalikes.dropLast, c.isPlain = true := by decide
    exact (distinct_only_duplicates hplain).2.1.2 (by decide)

end Script

end AlterScript
