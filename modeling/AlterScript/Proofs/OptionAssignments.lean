/-
  What the statement for the options of a table sets.

  `TableComparison.assignments` are the options of which the value is new, in the order of the new
  options, and then the comment if it is new. The text of the statement is made of one clause for
  each of them, and of nothing if there is none: `Options.forall₂_changedClauses`. Written over the
  old options they give every option that can be set its new value and leave the others alone:
  `TableComparison.options_assigned`.
-/
import Mathlib.Data.List.Forall2
import AlterScript.Proofs.TruthfulTags
import AlterScript.Proofs.Unchanged

namespace AlterScript

/-! ## Values -/

namespace Json

/-- Every value but null and arrays has a literal. -/
def hasLiteral : Json → Bool
  | null | arr _ => false
  | _ => true

theorem isSome_literal (j : Json) : (Literal.ofJson? j).isSome = j.hasLiteral := by
  cases j <;> rfl

theorem isNull_of_hasLiteral {j : Json} (h : j.hasLiteral = true) : j.isNull = false := by
  cases j with
  | null => cases h
  | _ => rfl

mutual

/-- A value that holds no name twice is the same as itself. -/
theorem same_self : (j : Json) → j.UniqueNames → j.same j = true
  | .null, _ => rfl
  | .bool b, _ => by rw [same, beq_self_eq_true]
  | .num n, _ => by rw [same, Number.same_refl]
  | .str s, _ => by rw [same, beq_self_eq_true]
  | .arr js, h => by
    rw [same]
    exact sameItems_self js h
  | .obj es, h => by
    rw [same, beq_self_eq_true, Bool.true_and, sameEntries_iff]
    exact fun e he => ⟨e.2, Entries.find?_of_mem h.1 he, same_self_of_mem es h.2 e he⟩

theorem sameItems_self : (js : List Json) → UniqueNamesOfItems js → sameItems js js = true
  | [], _ => rfl
  | j :: js, h => by rw [sameItems, same_self j h.1, sameItems_self js h.2, Bool.and_self]

theorem same_self_of_mem : (es : List (String × Json)) → UniqueNamesOfEntries es →
    ∀ e ∈ es, e.2.same e.2 = true
  | [], _ => fun _ he => absurd he List.not_mem_nil
  | (_, j) :: es, h => List.forall_mem_cons.2 ⟨same_self j h.1, same_self_of_mem es h.2⟩

end

end Json

/-! ## Assignments -/

/-- What one clause sets: an option, or the comment. -/
inductive Assignment
  | option (key : String) (value : Json)
  | comment (text : String)

namespace Assignment

/-- What is set, and to which value. -/
def entry : Assignment → String × Json
  | option key value => (key, value)
  | comment text => ("comment", .str text)

/-- An option is written with the literal of its value, and the comment is always quoted. -/
inductive Written : Assignment → String → Prop
  | option {key literal : String} {value : Json} (h : Literal.ofJson? value = some literal) :
      Written (option key value) (key ++ " = " ++ literal)
  | comment (text : String) : Written (comment text) ("comment = " ++ Text.quotedLiteral text)

end Assignment

namespace Options

/-- An option has this value, up to the order of names in it. -/
def has (o : Options) (e : String × Json) : Bool := (o.entries.find? e.1).any (· == e.2)

/-- The options that have to be set: those with a literal that the old options do not have. -/
def news (old new : Options) : Entries Json :=
  new.entries.filter fun e => e.2.hasLiteral && !old.has e

/-- The options after an alteration. -/
def assign (o : Options) (assignments : List Assignment) : Options :=
  ⟨o.entries.putAll (assignments.map Assignment.entry)⟩

end Options

namespace TableComparison

/-- The options before the change. -/
def oldOptions (c : TableComparison) : Options := (c.options.bind Change.old).getD .empty

/-- The options after the change. -/
def newOptions (c : TableComparison) : Options := (c.options.bind Change.new).getD .empty

/-- The new comment, if it is not the old one. -/
def newComment (c : TableComparison) : Option String :=
  (c.comment.bind Change.new).filter fun comment => c.comment.bind Change.old ≠ some comment

/-- What has to be set, in the order of the new options, and the comment last. -/
def assignments (c : TableComparison) : List Assignment :=
  (c.oldOptions.news c.newOptions).map (fun e => .option e.1 e.2) ++
    c.newComment.toList.map .comment

end TableComparison

/-! ## Clauses -/

namespace Options

theorem isChanged_eq (old : Options) (e : String × Json) :
    isChanged old e.1 e.2 = (!e.2.isNull && !old.has e) := by
  rw [isChanged, has]
  cases old.entries.find? e.1 <;> rfl

/-- The values without a literal that are left among the changed ones are not written. -/
theorem filterMap_clause?_diff (old new : Options) :
    (diff new old).entries.filterMap clause? = (old.news new).filterMap clause? := by
  rw [diff, news, List.filterMap_filter, List.filterMap_filter]
  refine List.filterMap_congr fun e _ => ?_
  rw [isChanged_eq]
  cases hliteral : e.2.hasLiteral with
  | true => rw [Json.isNull_of_hasLiteral hliteral, Bool.not_false]
  | false =>
    have hnone : clause? e = none := by
      rw [clause?, Option.map_eq_none_iff, ← Option.not_isSome_iff_eq_none, Json.isSome_literal,
        hliteral]
      exact Bool.false_ne_true
    rw [hnone]
    simp

theorem forall₂_clause? {es : Entries Json} (h : ∀ e ∈ es, e.2.hasLiteral = true) :
    List.Forall₂ Assignment.Written (es.map fun e => .option e.1 e.2) (es.filterMap clause?) := by
  induction es with
  | nil => exact .nil
  | cons e es ih =>
    obtain ⟨he, hes⟩ := List.forall_mem_cons.1 h
    rw [← Json.isSome_literal] at he
    obtain ⟨literal, hliteral⟩ := Option.isSome_iff_exists.1 he
    have hclause : clause? e = some (e.1 ++ " = " ++ literal) := by
      rw [clause?, hliteral, Option.map_some]
    rw [List.filterMap_cons_some hclause]
    exact .cons (.option hliteral) (ih hes)

theorem changedComment_eq (c : TableComparison) :
    (c.comment.bind fun c => changedComment c.old c.new) = c.newComment := by
  rw [TableComparison.newComment]
  cases c.comment with
  | none => rfl
  | some comment =>
    obtain ⟨old, new⟩ := comment
    cases new with
    | none => rfl
    | some new =>
      by_cases h : old = some new <;> simp [changedComment, Option.filter, h]

/-- There is one clause for each assignment, in their order. -/
theorem forall₂_changedClauses (c : TableComparison) :
    List.Forall₂ Assignment.Written c.assignments (changedClauses c.options c.comment) := by
  have hclauses : changedClauses c.options c.comment =
      (c.oldOptions.news c.newOptions).filterMap clause? ++
        (c.newComment.map commentClause).toList := by
    rw [changedClauses, clauses, filterMap_clause?_diff, changedComment_eq]
    rfl
  rw [hclauses]
  refine List.rel_append ?_ ?_
  · refine forall₂_clause? fun e he => ?_
    have he := (List.mem_filter.1 he).2
    rw [Bool.and_eq_true] at he
    exact he.1
  · cases c.newComment with
    | none => exact .nil
    | some text => exact .cons (.comment text) .nil

end Options

theorem Command.text_alterTableOptions (target : QualifiedName) (clauses : List String) :
    (alterTableOptions target clauses).text =
      if clauses = [] then ""
      else "ALTER TABLE " ++ target.text ++ "\n\tWITH " ++ Text.join "\n\tAND " clauses ++ ";" := by
  cases clauses <;> rfl

/-! ## After an alteration -/

namespace TableComparison

variable {c : TableComparison}

/-- The new options that are read for a table hold no name twice. -/
theorem uniqueNames_newOptions {j : Json} (h : j.UniqueNames) {t : Table}
    (ht : Table.ofJson? j = some t) (hc : t.role.comparison = some c) :
    (Json.obj c.newOptions.entries).UniqueNames := by
  rw [newOptions]
  cases hnew : c.options.bind Change.new with
  | none => exact (Json.uniqueNames_obj_iff []).2 ⟨List.nodup_nil, List.forall_mem_nil _⟩
  | some o =>
    obtain ⟨change, hchange, ho⟩ := Option.bind_eq_some_iff.1 hnew
    exact Table.uniqueNames_options h ht hc hchange (.inr ho)

/-- What an option is after the alteration: its new value if it has to be set, or as it was. -/
theorem find?_assign (hn : (Entries.keys c.newOptions.entries).Nodup) {key : String}
    (hkey : key ≠ "comment") :
    (c.oldOptions.assign c.assignments).entries.find? key =
      ((c.newOptions.entries.find? key).filter
          (fun value => value.hasLiteral && !c.oldOptions.has (key, value)) <|>
        c.oldOptions.entries.find? key) := by
  have hentries : c.assignments.map Assignment.entry =
      c.oldOptions.news c.newOptions ++
        c.newComment.toList.map (fun text => ("comment", Json.str text)) := by
    rw [assignments, List.map_append, List.map_map, List.map_map]
    congr 1
    exact List.map_id _
  have hput : ∀ es : Entries Json,
      (es.putAll (c.newComment.toList.map fun text => ("comment", Json.str text))).find? key =
        es.find? key := by
    intro es
    cases c.newComment with
    | none => rfl
    | some text => exact (Entries.find?_put _ _ _ _).trans (if_neg hkey.symm)
  have hnodup : (Entries.keys (c.oldOptions.news c.newOptions)).Nodup :=
    hn.sublist (List.filter_sublist.map Prod.fst)
  rw [Options.assign, hentries, Entries.putAll, List.foldl_append]
  refine (hput _).trans ?_
  refine (Entries.find?_putAll key _ _ hnodup).trans ?_
  rw [Options.news, Entries.find?_filter hn]

theorem find?_assign_of_hasLiteral (hn : (Json.obj c.newOptions.entries).UniqueNames) {key : String}
    (hkey : key ≠ "comment") {value : Json} (hvalue : c.newOptions.entries.find? key = some value)
    (hliteral : value.hasLiteral = true) :
    ∃ v, (c.oldOptions.assign c.assignments).entries.find? key = some v ∧ (v == value) = true := by
  obtain ⟨hnodup, hunique⟩ := (Json.uniqueNames_obj_iff _).1 hn
  rw [find?_assign hnodup hkey, hvalue, Option.filter_some, hliteral, Bool.true_and]
  cases hhas : c.oldOptions.has (key, value) with
  | false =>
    -- The new value is written, and it is the same as itself.
    exact ⟨value, rfl, Json.same_self value (hunique _ (Entries.mem_of_find? hvalue))⟩
  | true =>
    obtain ⟨v, hv, hsame⟩ := (Option.any_eq_true _ _).1 hhas
    exact ⟨v, hv, hsame⟩

theorem find?_assign_of_forall (hn : (Entries.keys c.newOptions.entries).Nodup) {key : String}
    (hkey : key ≠ "comment")
    (h : ∀ value, c.newOptions.entries.find? key = some value → value.hasLiteral = false) :
    (c.oldOptions.assign c.assignments).entries.find? key = c.oldOptions.entries.find? key := by
  rw [find?_assign hn hkey]
  cases hvalue : c.newOptions.entries.find? key with
  | none => rfl
  | some value =>
    rw [Option.filter_some, h value hvalue]
    rfl

/-- A table that is altered in place gets one statement for its options. Its text sets the options
    that have a literal and another value than before, in their order, and then the comment if it is
    new; there is no text if there is nothing to set. After that each of the new options that has
    a literal has its new value, and every other option is as it was. The new options that are read
    hold no name twice (`uniqueNames_newOptions`). -/
theorem options_assigned (c : TableComparison) (target : QualifiedName) :
    (∀ (s : Scope) (t : Table) (columns : List Command),
      t.isReplaced c (t.columnIds s.definitions) = false →
      t.update s c target true columns =
        .ok (.alterTableOptions target (Options.changedClauses c.options c.comment) ::
          t.alterIndexes (t.columnIds s.definitions) target ++ columns)) ∧
    (∃ clauses, List.Forall₂ Assignment.Written c.assignments clauses ∧
      (Command.alterTableOptions target (Options.changedClauses c.options c.comment)).text =
        if clauses = [] then ""
        else "ALTER TABLE " ++ target.text ++ "\n\tWITH " ++ Text.join "\n\tAND " clauses ++ ";") ∧
    ((Command.alterTableOptions target (Options.changedClauses c.options c.comment)).text = "" ↔
      c.assignments = []) ∧
    ((Json.obj c.newOptions.entries).UniqueNames →
      (∀ key ≠ "comment", ∀ value, c.newOptions.entries.find? key = some value →
        value.hasLiteral = true →
        ∃ v, (c.oldOptions.assign c.assignments).entries.find? key = some v ∧
          (v == value) = true) ∧
      ∀ key ≠ "comment",
        (∀ value, c.newOptions.entries.find? key = some value → value.hasLiteral = false) →
        (c.oldOptions.assign c.assignments).entries.find? key =
          c.oldOptions.entries.find? key) := by
  have hclauses := Options.forall₂_changedClauses c
  refine ⟨fun s t columns hkept => ?_, ⟨_, hclauses, ?_⟩, ⟨fun h => ?_, fun h => ?_⟩, fun hn => ?_⟩
  · simp only [Table.update, hkept, Bool.false_eq_true, if_false, if_true]
  · exact Command.text_alterTableOptions target _
  · rw [Command.eq_nil_of_settingText h] at hclauses
    exact List.forall₂_nil_right_iff.1 hclauses
  · rw [h] at hclauses
    rw [List.forall₂_nil_left_iff.1 hclauses]
    rfl
  · have hnodup := ((Json.uniqueNames_obj_iff _).1 hn).1
    exact ⟨fun key hkey value => find?_assign_of_hasLiteral hn hkey,
      fun key hkey => find?_assign_of_forall hnodup hkey⟩

/-- One option with another value, one with its old value written in another order, a new one, and
    two without a literal. -/
def tunedOptions : TableComparison where
  options := some
    { old := some ⟨[("gc_grace_seconds", .num (.int 864000)),
        ("default_time_to_live", .num (.int 0)),
        ("caching", .obj [("keys", .str "ALL"), ("rows", .str "NONE")])]⟩
      new := some ⟨[("default_time_to_live", .num (.int 3600)),
        ("caching", .obj [("rows", .str "NONE"), ("keys", .str "ALL")]),
        ("speculative_retry", .str "99PERCENTILE"), ("bloom_filter_fp_chance", .null),
        ("gc_grace_seconds", .arr [])]⟩ }
  comment := some { old := some "users", new := some "the user's" }

theorem uniqueNames_tunedOptions : (Json.obj tunedOptions.newOptions.entries).UniqueNames := by
  simp [tunedOptions, newOptions, Json.UniqueNames, Json.UniqueNamesOfEntries,
    Json.UniqueNamesOfItems, Entries.keys]

/-- Three clauses are written; the order of names in a value does not count, and what is given no
    literal stays. -/
theorem options_assigned_of_tunedOptions :
    ({} : Table).isReplaced tunedOptions (({} : Table).columnIds []) = false ∧
    (Json.obj tunedOptions.newOptions.entries).UniqueNames ∧
    (∃ command,
      ({} : Table).update {} tunedOptions ⟨some "app", "users"⟩ true [] = .ok [command] ∧
      command.text = "ALTER TABLE \"app\".\"users\"\n\tWITH default_time_to_live = 3600" ++
        "\n\tAND speculative_retry = '99PERCENTILE'\n\tAND comment = 'the user''s';") ∧
    (∃ v,
      (tunedOptions.oldOptions.assign tunedOptions.assignments).entries.find? "caching" = some v ∧
      (v == .obj [("rows", .str "NONE"), ("keys", .str "ALL")]) = true) ∧
    (tunedOptions.oldOptions.assign tunedOptions.assignments).entries.find? "gc_grace_seconds" =
      some (.num (.int 864000)) := by
  have hkept : ({} : Table).isReplaced tunedOptions (({} : Table).columnIds []) = false := by rfl
  obtain ⟨hupdate, -, -, hafter⟩ := options_assigned tunedOptions ⟨some "app", "users"⟩
  obtain ⟨hnew, hother⟩ := hafter uniqueNames_tunedOptions
  refine ⟨hkept, uniqueNames_tunedOptions, ⟨_, hupdate {} {} [] hkept, by rfl⟩, ?_, ?_⟩
  · exact hnew "caching" (by decide) _ (by rfl) (by rfl)
  · refine hother "gc_grace_seconds" (by decide) fun value hvalue => ?_
    obtain rfl : Json.arr [] = value := Option.some.inj hvalue
    rfl

end TableComparison

end AlterScript
