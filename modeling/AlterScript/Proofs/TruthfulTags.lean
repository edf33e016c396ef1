/-
  Statements that are tagged with what their texts say.

  `Statement.Tells`: what a text does to what kind of object, by the words it begins with, and for
  an `ALTER TABLE` by the word behind the name of the table. A name may hold any such word; the text
  still says one thing, since the name ends where its quotes end: `Tells.unique`. The statement of a
  command is tagged with what its text says (`Command.tells`), so whatever reads the tags misses no
  drop: `Script.tags_truthful`.
-/
import AlterScript.Proofs.GatedColumns
import AlterScript.Proofs.ReadingBack

namespace AlterScript

namespace Text

/-- A text with a given beginning. -/
def Begins (beginning text : String) : Prop := beginning.toList <+: text.toList

instance (beginning text : String) : Decidable (Begins beginning text) :=
  inferInstanceAs (Decidable (beginning.toList <+: text.toList))

theorem Begins.refl (text : String) : Begins text text := List.prefix_refl _

theorem Begins.append {beginning text : String} (h : Begins beginning text) (rest : String) :
    Begins beginning (text ++ rest) := by
  rw [Begins, String.toList_append]
  exact h.trans (List.prefix_append _ _)

theorem Begins.trans {beginning beginning' text : String} (h : Begins beginning beginning')
    (h' : Begins beginning' text) : Begins beginning text := List.IsPrefix.trans h h'

theorem Begins.appends {beginning text : String} (h : Begins beginning text)
    (rests : List String) : Begins beginning (rests.foldl (· ++ ·) text) := by
  induction rests generalizing text with
  | nil => exact h
  | cons rest rests ih => exact ih (h.append rest)

end Text

/-! ## Words -/

namespace Statement

/-- The words for objects other than columns, with the levels of the objects. -/
def objects : List (String × Level) :=
  [("KEYSPACE ", .keyspace), ("TABLE ", .table), ("INDEX ", .index), ("SEARCH INDEX ", .index),
    ("MATERIALIZED VIEW ", .view), ("TYPE ", .userType)]

/-- The words behind the name of a table in an `ALTER TABLE`, with what they do to what. -/
def tableChanges : List (String × Action × Level) :=
  [(" ADD ", .add, .field), (" DROP ", .drop, .field), (" RENAME ", .modify, .field),
    (" ALTER ", .modify, .field), ("\n\tWITH ", .modify, .table)]

/-- What a text says it does to what kind of object. -/
inductive Tells (text : String) : Action → Level → Prop
  | create {object : String × Level} (h : object ∈ objects)
      (hbegins : Text.Begins ("CREATE " ++ object.1) text) : Tells text .add object.2
  | drop {object : String × Level} (h : object ∈ objects)
      (hbegins : Text.Begins ("DROP " ++ object.1) text) : Tells text .drop object.2
  | alter {object : String × Level} (h : object ∈ objects) (htable : object.2 ≠ .table)
      (hbegins : Text.Begins ("ALTER " ++ object.1) text) : Tells text .modify object.2
  | alterTable {change : String × Action × Level} (h : change ∈ tableChanges) (q : QualifiedName)
      (hbegins : Text.Begins ("ALTER TABLE " ++ q.text ++ change.1) text) :
      Tells text change.2.1 change.2.2

/-! ## What a text says is one thing -/

/-- The words behind the name of a table, each with what a text says that goes on like this. -/
def tableReaders : List (String × (List Char → Option (Action × Level))) :=
  tableChanges.map fun change => (change.1, fun _ => some change.2)

/-- What is said behind `ALTER TABLE`. -/
def tableChange? (cs : List Char) : Option (Action × Level) :=
  (QualifiedName.read? cs).bind fun p => Text.readBy tableReaders p.2

/-- The beginnings of texts, each with what a text says that begins like this. -/
def readers : List (String × (List Char → Option (Action × Level))) :=
  (objects.map fun object => ("CREATE " ++ object.1, fun _ => some (.add, object.2)))
    ++ (objects.map fun object => ("DROP " ++ object.1, fun _ => some (.drop, object.2)))
    ++ ((objects.filter (·.2 ≠ .table)).map fun object =>
      ("ALTER " ++ object.1, fun _ => some (.modify, object.2)))
    ++ [("ALTER TABLE ", tableChange?)]

theorem prefixFree_readers : Text.PrefixFree (readers.map Prod.fst) := by decide

theorem prefixFree_tableReaders : Text.PrefixFree (tableReaders.map Prod.fst) := by decide

theorem readBy_readers {beginning text : String} {said : Action × Level}
    (h : (beginning, fun _ => some said) ∈ readers) (hbegins : Text.Begins beginning text) :
    Text.readBy readers text.toList = some said := by
  obtain ⟨rest, hrest⟩ := hbegins
  rw [← hrest, Text.readBy_append prefixFree_readers h]

/-- No word behind the name of a table starts like a name or like the point between two names. -/
theorem head?_tableChange {change : String × Action × Level} (h : change ∈ tableChanges)
    (rest : List Char) :
    (change.1.toList ++ rest).head? ≠ some '"' ∧ (change.1.toList ++ rest).head? ≠ some '.' := by
  have hall : ∀ change ∈ tableChanges, change.1.toList ≠ [] ∧
      change.1.toList.head? ≠ some '"' ∧ change.1.toList.head? ≠ some '.' := by decide
  obtain ⟨hne, hquote, hpoint⟩ := hall change h
  rw [List.head?_append_of_ne_nil _ hne]
  exact ⟨hquote, hpoint⟩

theorem tableChange?_append {change : String × Action × Level} (h : change ∈ tableChanges)
    (q : QualifiedName) (rest : List Char) :
    tableChange? (q.text.toList ++ (change.1.toList ++ rest)) = some change.2 := by
  obtain ⟨hquote, hpoint⟩ := head?_tableChange h rest
  have hmem : (change.1, fun _ => some change.2) ∈ tableReaders :=
    List.mem_map.2 ⟨change, h, rfl⟩
  rw [tableChange?, QualifiedName.read?_text q hquote hpoint, Option.bind_some,
    Text.readBy_append prefixFree_tableReaders hmem]

/-- What a text says is read off the text. -/
theorem Tells.readBy {text : String} {action : Action} {level : Level}
    (h : Tells text action level) : Text.readBy readers text.toList = some (action, level) := by
  cases h with
  | create h hbegins =>
    refine readBy_readers ?_ hbegins
    exact List.mem_append_left _ (List.mem_append_left _ (List.mem_append_left _
      (List.mem_map_of_mem h)))
  | drop h hbegins =>
    refine readBy_readers ?_ hbegins
    exact List.mem_append_left _ (List.mem_append_left _ (List.mem_append_right _
      (List.mem_map_of_mem h)))
  | alter h htable hbegins =>
    refine readBy_readers ?_ hbegins
    exact List.mem_append_left _ (List.mem_append_right _
      (List.mem_map_of_mem (List.mem_filter.2 ⟨h, decide_eq_true htable⟩)))
  | alterTable h q hbegins =>
    obtain ⟨rest, hrest⟩ := hbegins
    rw [← hrest, String.toList_append, String.toList_append, List.append_assoc, List.append_assoc,
      Text.readBy_append prefixFree_readers (List.mem_append_right _ (.head _)),
      tableChange?_append h q rest]

theorem Tells.unique {text : String} {action action' : Action} {level level' : Level}
    (h : Tells text action level) (h' : Tells text action' level') :
    action = action' ∧ level = level' :=
  Prod.mk.inj (Option.some.inj (h.readBy.symm.trans h'.readBy))

theorem not_tells_empty (action : Action) (level : Level) : ¬ Tells "" action level := by
  intro h
  have hnone : Text.readBy readers "".toList = none := by decide
  exact absurd (hnone.symm.trans h.readBy) (Option.some_ne_none _).symm

/-! ## Tags -/

/-- A statement that drops something and says nothing else: an object by its name, or a column of a
    table. -/
inductive Drops : String → Prop
  | object {n : String × (QualifiedName → Command)} (h : n ∈ Command.naming) (q : QualifiedName) :
    Drops (n.1 ++ q.text ++ ";")
  | column (q : QualifiedName) (column : String) :
    Drops ("ALTER TABLE " ++ q.text ++ " DROP " ++ Text.quotedName column ++ ";")

/-- A statement that takes effect, and that is tagged with what its text says. -/
structure Truthful (s : Statement) : Prop where
  active : s.active = true
  blank : s.isBlank = true → s.text = "" ∧ s.action = .modify ∧ s.level = .table
  tagged : s.isBlank = false → Tells s.text s.action s.level
  only : ∀ {action level}, Tells s.text action level → action = s.action ∧ level = s.level
  drops : s.action = .drop → Drops s.text

namespace Truthful

variable {s : Statement} (h : s.Truthful)

include h

theorem action_eq_iff {action : Action} (hne : action ≠ .modify) :
    s.action = action ↔ ∃ level, Tells s.text action level := by
  constructor
  · rintro rfl
    refine ⟨s.level, h.tagged ?_⟩
    rw [← Bool.not_eq_true]
    exact fun hblank => hne (h.blank hblank).2.1
  · rintro ⟨level, htells⟩
    exact (h.only htells).1.symm

theorem isDestructive_iff_tells : s.isDestructive = true ↔ ∃ level, Tells s.text .drop level := by
  rw [← h.action_eq_iff (by decide), isDestructive_iff]
  refine and_iff_left_of_imp fun hdrop => ?_
  rw [← Bool.not_eq_true]
  intro hblank
  rw [(h.blank hblank).2.1] at hdrop
  exact Action.noConfusion hdrop

end Truthful

end Statement

namespace Command

section Tells

open Statement (objects tableChanges Tells)

/-- What sets options says so, unless it says nothing. -/
theorem begins_settingText {object : String} {clauses : List String}
    (hne : settingText object clauses ≠ "") :
    Text.Begins (object ++ "\n\tWITH ") (settingText object clauses) := by
  rw [settingText] at hne ⊢
  split at hne
  · exact absurd rfl hne
  · rename_i hclauses
    rw [if_neg hclauses]
    exact ((Text.Begins.refl _).append _).append _

/-- A command says what it does to what kind of object, unless it says nothing. -/
theorem tells (c : Command) (hne : c.text ≠ "") : Tells c.text c.action c.level := by
  have hkeyspace : ("KEYSPACE ", Level.keyspace) ∈ objects := by decide
  have htable : ("TABLE ", Level.table) ∈ objects := by decide
  have hindex : ("INDEX ", Level.index) ∈ objects := by decide
  have hsearch : ("SEARCH INDEX ", Level.index) ∈ objects := by decide
  have hview : ("MATERIALIZED VIEW ", Level.view) ∈ objects := by decide
  have htype : ("TYPE ", Level.userType) ∈ objects := by decide
  have hadd : (" ADD ", Action.add, Level.field) ∈ tableChanges := by decide
  have hdrop : (" DROP ", Action.drop, Level.field) ∈ tableChanges := by decide
  have hrename : (" RENAME ", Action.modify, Level.field) ∈ tableChanges := by decide
  have hconvert : (" ALTER ", Action.modify, Level.field) ∈ tableChanges := by decide
  have hoptions : ("\n\tWITH ", Action.modify, Level.table) ∈ tableChanges := by decide
  cases c with
  | createKeyspace k => exact .create hkeyspace (.appends (by decide) [_])
  | alterKeyspace k => exact .alter hkeyspace (by decide) (.appends (by decide) [_])
  | dropKeyspace name => exact .drop hkeyspace (.appends (by decide) [_, _])
  | createTable t => exact .create htable (.appends (by decide) [_, _, _, _, _, _])
  | alterTableOptions t clauses => exact .alterTable hoptions t (begins_settingText hne)
  | dropTable t => exact .drop htable (.appends (by decide) [_, _])
  | addColumn t column => exact .alterTable hadd t (.appends (.refl _) [_, _])
  | dropColumn t column => exact .alterTable hdrop t (.appends (.refl _) [_, _])
  | renameColumn t old new => exact .alterTable hrename t (.appends (.refl _) [_, _, _, _])
  | alterColumnType t column => exact .alterTable hconvert t (.appends (.refl _) [_, _, _, _])
  | createIndex t i => exact .create hindex (.appends (by decide) [_, _, _, _, _, _])
  | dropIndex keyspace name => exact .drop hindex (.appends (by decide) [_, _])
  | createSearchIndex t columns => exact .create hsearch (.appends (by decide) [_, _, _])
  | dropSearchIndex t => exact .drop hsearch (.appends (by decide) [_, _])
  | createView v => exact .create hview (.appends (by decide) [_, _, _, _, _, _, _, _, _])
  | alterViewOptions v clauses =>
    have hobject : Text.Begins "ALTER MATERIALIZED VIEW "
        ("ALTER MATERIALIZED VIEW " ++ v.text ++ "\n\tWITH ") := .appends (.refl _) [_, _]
    exact .alter hview (by decide) (hobject.trans (begins_settingText hne))
  | dropView v => exact .drop hview (.appends (by decide) [_, _])
  | createType t => exact .create htype (.appends (by decide) [_, _, _, _])
  | addTypeField t field => exact .alter htype (by decide) (.appends (by decide) [_, _, _, _])
  | renameTypeField t old new =>
    exact .alter htype (by decide) (.appends (by decide) [_, _, _, _, _, _])
  | alterTypeField t field =>
    exact .alter htype (by decide) (.appends (by decide) [_, _, _, _, _, _])
  | dropType t => exact .drop htype (.appends (by decide) [_, _])

end Tells

theorem drops (c : Command) (hdrop : c.action = .drop) : Statement.Drops c.text := by
  cases c with
  | dropColumn t column => exact .column t column
  | dropTable _ | dropIndex _ _ | dropSearchIndex _ | dropKeyspace _ | dropView _ | dropType _ =>
    obtain ⟨n, hn, q, htext, _⟩ := exists_naming hdrop fun h => Level.noConfusion h
    rw [htext]
    exact .object hn q
  | _ => cases hdrop

/-! ## Commands that say nothing -/

theorem text_ne_empty_of_getLast? {text : String} {c : Char} (h : text.toList.getLast? = some c) :
    text ≠ "" := by
  rintro rfl
  exact absurd h (by simp)

theorem eq_nil_of_settingText {object : String} {clauses : List String}
    (h : settingText object clauses = "") : clauses = [] := by
  cases clauses with
  | nil => rfl
  | cons clause clauses => exact absurd h (text_ne_empty_of_getLast? (getLast?_append rfl))

/-- Only a command that sets options can say nothing, and it does if there are none. -/
theorem eq_of_text_eq_empty {c : Command} (h : c.text = "") :
    (∃ t, c = alterTableOptions t []) ∨ ∃ v, c = alterViewOptions v [] := by
  cases c with
  | alterTableOptions t clauses =>
    obtain rfl := eq_nil_of_settingText h
    exact .inl ⟨t, rfl⟩
  | alterViewOptions v clauses =>
    obtain rfl := eq_nil_of_settingText h
    exact .inr ⟨v, rfl⟩
  | createKeyspace k =>
    exact absurd h (text_ne_empty_of_getLast? (getLast?_append (getLast?_append rfl)))
  | alterKeyspace k =>
    exact absurd h (text_ne_empty_of_getLast? (getLast?_append (getLast?_append rfl)))
  | _ => exact absurd h (text_ne_empty_of_getLast? (getLast?_append rfl))

theorem truthful_statement {c : Command}
    (h : c.text = "" → c.action = .modify ∧ c.level = .table) : c.statement.Truthful where
  active := rfl
  blank hblank := by
    have hempty := (isBlank_statement_iff c).1 hblank
    exact ⟨hempty, h hempty⟩
  tagged hblank := by
    refine c.tells fun hempty => ?_
    rw [(isBlank_statement_iff c).2 hempty] at hblank
    exact Bool.noConfusion hblank
  only htells := by
    refine htells.unique (c.tells fun hempty => ?_)
    rw [text_statement, hempty] at htells
    exact Statement.not_tells_empty _ _ htells
  drops hdrop := c.drops hdrop

end Command

/-! ## Trees -/

/-- A view is altered only where there are options to set. -/
theorem View.ne_nil_of_mem_commands {d : Direction} {v : View} {q : QualifiedName}
    {clauses : List String} (h : Command.alterViewOptions q clauses ∈ v.commands d) :
    clauses ≠ [] := by
  have hcreate : ∀ name, Command.alterViewOptions q clauses ∉ v.create name := by
    intro name h
    obtain ⟨definition, _, h⟩ := Option.map_eq_some_iff.1 (Option.mem_toList.1 h)
    exact Command.noConfusion h
  have hdrop : ∀ name, Command.alterViewOptions q clauses ≠ v.drop name :=
    fun name h => Command.noConfusion h
  have hupdate : Command.alterViewOptions q clauses ∈ v.update → clauses ≠ [] := by
    intro h
    rw [update] at h
    split at h
    · dsimp only at h
      split at h
      · exact absurd ((List.mem_cons.1 h).resolve_left (hdrop _)) (hcreate _)
      · split at h
        · exact absurd h List.not_mem_nil
        · rename_i hne
          obtain ⟨-, rfl⟩ := Command.alterViewOptions.inj (List.mem_singleton.1 h)
          exact hne
    · exact absurd h List.not_mem_nil
  unfold commands at h
  split at h
  · exact hupdate h
  · exact absurd h (hcreate _)
  · exact absurd (List.mem_singleton.1 h) (hdrop _)
  · exact absurd h List.not_mem_nil

namespace Script

/-- A command of a tree that says nothing would change a table. -/
theorem tags_of_text_eq_empty {s : Scope} {skipKeyspaces : Bool} {t : ChangeTree}
    {cs : List Command} (h : commands s skipKeyspaces t = .ok cs) {c : Command} (hc : c ∈ cs)
    (hempty : c.text = "") : c.action = .modify ∧ c.level = .table := by
  rcases Command.eq_of_text_eq_empty hempty with ⟨q, rfl⟩ | ⟨q, rfl⟩
  · exact ⟨rfl, rfl⟩
  · rcases (mem_commands_iff h).1 hc with ⟨b, n, _, ys, hys, hc⟩ | ⟨_, b, hc⟩ | ⟨b, hc⟩ |
      ⟨b, n, _, ys, hys, hc⟩
    · have hlevel := Table.level_of_mem_commands hys hc
      simp [Command.level] at hlevel
    · obtain ⟨n, _, hc⟩ := List.mem_flatMap.1 hc
      exact Level.noConfusion (Keyspace.level_of_mem_commands hc)
    · obtain ⟨n, _, hc⟩ := List.mem_flatMap.1 hc
      exact absurd rfl (View.ne_nil_of_mem_commands hc)
    · exact Level.noConfusion (UserType.level_of_mem_commands hys hc)

/-- What is generated is tagged with what it says, whatever the names in it look like: nothing else
    is tagged as a drop or as an addition. So a drop stands with the drops of its kind of object,
    it is found where one asks for drops, and it takes no effect where drops are not applied. -/
theorem tags_truthful {resolver : Resolver} {references : References} {mode : Mode} {root : Json}
    {raw : List Statement} (h : generated resolver references mode root = .ok raw) :
    (∀ st ∈ raw, st.Truthful ∧
      (st.action = .drop ↔ ∃ level, Statement.Tells st.text .drop level) ∧
      (st.action = .add ↔ ∃ level, Statement.Tells st.text .add level) ∧
      (st.isDestructive = true ↔ ∃ level, Statement.Tells st.text .drop level) ∧
      (∀ level, Statement.Tells st.text .drop level → slot st = (level, .drop)) ∧
      slot st ∈ precedence) ∧
    (isDestructive resolver references mode root = .ok true ↔
      ∃ st ∈ raw, ∃ level, Statement.Tells st.text .drop level) ∧
    (∀ final, ofTree resolver references { mode with applyDrops := false } root = .ok final →
      ∀ st ∈ final, st.active = true → ∀ level, ¬ Statement.Tells st.text .drop level) := by
  have htruthful : ∀ st ∈ raw, st.Truthful := by
    intro st hst
    obtain ⟨t, cs, _, hcs, rfl⟩ := generated_eq_ok_iff.1 h
    obtain ⟨c, hc, rfl⟩ := List.mem_map.1 hst
    exact Command.truthful_statement (tags_of_text_eq_empty hcs hc)
  refine ⟨fun st hst => ?_, ?_, fun final hfinal st hst hactive level htells => ?_⟩
  · have hst' := htruthful st hst
    refine ⟨hst', hst'.action_eq_iff (by decide), hst'.action_eq_iff (by decide),
      hst'.isDestructive_iff_tells, fun level htells => ?_, ?_⟩
    · obtain ⟨haction, hlevel⟩ := hst'.only htells
      rw [slot, haction, hlevel]
    · obtain ⟨c, rfl⟩ := exists_command_of_mem_generated h hst
      exact slot_mem_precedence c
  · have hasked : isDestructive resolver references mode root =
        .ok (raw.any Statement.isDestructive) := by
      rw [isDestructive, h]
      rfl
    rw [hasked, Except.ok.injEq, List.any_eq_true]
    exact exists_congr fun st =>
      and_congr_right fun hst => (htruthful st hst).isDestructive_iff_tells
  · obtain ⟨raw', hraw', rfl⟩ := ofTree_eq_ok_iff.1 hfinal
    obtain rfl := Except.ok.inj (h.symm.trans hraw')
    rw [ofStatements_eq_gate false, mem_gate_iff_of_active hactive,
      mem_ofStatements_true_iff] at hst
    have hdrop := (htruthful st hst.1).isDestructive_iff_tells.2 ⟨level, htells⟩
    exact Bool.noConfusion (hdrop.symm.trans hst.2)

/-- A column that is dropped and added anew, in a table the name of which looks like a statement,
    and with a name that does. -/
def disguisedColumn : Json :=
  let version (type : String) : Json :=
    .obj [("name", .str "a\" ADD \"b"), ("type", .str type)]
  let column : Json := .obj [("name", .str "a\" ADD \"b"), ("type", .str "string"),
    ("compMod", .obj [("oldField", version "numeric"), ("newField", version "string")])]
  let role : Json := .obj [("code", .str "t\" RENAME \"u"), ("compMod", .obj [])]
  ChangeTree.rootOf .tables .modified
    [("t", .obj [("role", role), ("properties", .obj [("a\" ADD \"b", column)])])]

theorem tags_truthful_of_disguisedColumn :
    ∃ raw, generated Resolver.builtin .empty {} disguisedColumn = .ok raw ∧
      raw.map (fun st => (st.text, st.action, st.level)) =
        [("", .modify, .table),
          ("ALTER TABLE \"t\"\" RENAME \"\"u\" DROP \"a\"\" ADD \"\"b\";", .drop, .field),
          ("ALTER TABLE \"t\"\" RENAME \"\"u\" ADD \"a\"\" ADD \"\"b\" text;", .add,
            .field)] ∧
      (∀ st ∈ raw, st.Truthful) ∧
      isDestructive Resolver.builtin .empty {} disguisedColumn = .ok true := by
  have hraw : generated Resolver.builtin .empty {} disguisedColumn = .ok
      [⟨"", true, .modify, .table⟩,
        ⟨"ALTER TABLE \"t\"\" RENAME \"\"u\" DROP \"a\"\" ADD \"\"b\";", true, .drop, .field⟩,
        ⟨"ALTER TABLE \"t\"\" RENAME \"\"u\" ADD \"a\"\" ADD \"\"b\" text;", true, .add,
          .field⟩] := rfl
  obtain ⟨htruthful, hasked, _⟩ := tags_truthful hraw
  refine ⟨_, hraw, rfl, fun st hst => (htruthful st hst).1, hasked.2 ⟨_, .tail _ (.head _), ?_⟩⟩
  exact ((htruthful _ (.tail _ (.head _))).2.1).1 rfl

end Script

end AlterScript
