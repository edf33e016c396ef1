/-
  Columns that are dropped and added anew while drops are not applied.

  Gating looks at one statement at a time: the drop of a column is commented out, and its addition
  stays. `Script.readded_iff` says for which columns a script has both: those of which a table of
  the tree asks for the drop and a table of the tree for the addition.
-/
import AlterScript.Proofs.ColumnStatements
import AlterScript.Proofs.Gating

namespace AlterScript

namespace Script

/-! ## Gated statements -/

/-- A statement with the form in which it stands in the script without drops. -/
theorem mem_zip_gate_iff {ss : List Statement} {st g : Statement} :
    (st, g) ∈ ss.zip (gate false ss) ↔
      st ∈ ss ∧ g = if st.isDestructive then st.commentedOut else st := by
  show (st, g) ∈ ss.zip (ss.map _) ↔ _
  rw [← List.map_prod_left_eq_zip, List.mem_map]
  constructor
  · rintro ⟨x, hx, he⟩
    obtain ⟨rfl, rfl⟩ := Prod.mk.inj he
    exact ⟨hx, rfl⟩
  · rintro ⟨hst, rfl⟩
    exact ⟨st, hst, rfl⟩

/-- What takes effect without drops is what is not destructive. -/
theorem mem_gate_iff_of_active {ss : List Statement} {st : Statement} (hactive : st.active = true) :
    st ∈ gate false ss ↔ st ∈ ss ∧ st.isDestructive = false := by
  show st ∈ ss.map _ ↔ _
  rw [List.mem_map]
  constructor
  · rintro ⟨x, hx, rfl⟩
    by_cases hdestructive : x.isDestructive = true
    · rw [if_pos hdestructive] at hactive
      exact absurd hactive Bool.false_ne_true
    · rw [if_neg hdestructive]
      exact ⟨hx, by simpa using hdestructive⟩
  · rintro ⟨hst, hdestructive⟩
    exact ⟨st, hst, if_neg (by simp [hdestructive])⟩

theorem isDestructive_dropColumn (q : QualifiedName) (name : String) :
    (Command.dropColumn q name).statement.isDestructive = true := by
  rw [Statement.isDestructive_iff]
  refine ⟨rfl, ?_⟩
  rw [← Bool.not_eq_true, Command.isBlank_statement_iff]
  intro hempty
  have htext := Alteration.text_command q (.drop name)
  rw [show (Alteration.command q (.drop name)).text = "" from hempty] at htext
  simp at htext

/-! ## Columns added anew -/

/-- A script has the drop of a column as a comment, and its addition takes effect. The first list
    has the statements with drops applied, place by place: a comment alone does not tell which text
    it was made of. -/
structure Readded (applied final : List Statement) (q : QualifiedName) (name : String) : Prop where
  commented : ∃ g, ((Command.dropColumn q name).statement, g) ∈ applied.zip final ∧
    g.active = false
  added : ∃ type, (Command.addColumn q ⟨name, type⟩).statement ∈ final

theorem readded_gate_iff {ss : List Statement} {q : QualifiedName} {name : String} :
    Readded ss (gate false ss) q name ↔
      (Command.dropColumn q name).statement ∈ ss ∧
        ∃ type, (Command.addColumn q ⟨name, type⟩).statement ∈ ss := by
  constructor
  · rintro ⟨⟨g, hdrop, _⟩, type, hadd⟩
    exact ⟨(mem_zip_gate_iff.1 hdrop).1, type, ((mem_gate_iff_of_active rfl).1 hadd).1⟩
  · rintro ⟨hdrop, type, hadd⟩
    refine ⟨⟨_, mem_zip_gate_iff.2 ⟨hdrop, rfl⟩, ?_⟩, type, ?_⟩
    · rw [if_pos (isDestructive_dropColumn q name)]
      rfl
    · exact (mem_gate_iff_of_active rfl).2 ⟨hadd, rfl⟩

/-- Without drops applied, a column is added anew beside its drop that is commented out exactly if
    the tree asks for both. There is a script if the resolver always answers. -/
theorem readded_iff (resolver : Resolver) (references : References) (mode : Mode) {root : Json}
    {t : ChangeTree} (ht : ChangeTree.ofJson root = .ok t) :
    (resolver.Answers → ∃ final,
      ofTree resolver references { mode with applyDrops := false } root = .ok final) ∧
    ∀ final, ofTree resolver references { mode with applyDrops := false } root = .ok final →
    ∃ applied,
      ofTree resolver references { mode with applyDrops := true } root = .ok applied ∧
      final = gate false applied ∧
      ∀ q name, Readded applied final q name ↔
        DropsColumn (scope resolver references mode.legacy t) t q name ∧
        ∃ type, AddsColumn (scope resolver references mode.legacy t) t q ⟨name, type⟩ := by
  refine ⟨fun hr => exists_ofTree_eq_ok hr references _ ht, fun final hfinal => ?_⟩
  obtain ⟨cs, hcs, rfl⟩ := (ofTree_eq_ok_iff_of_ofJson ht).1 hfinal
  refine ⟨ofStatements true (cs.map Command.statement),
    (ofTree_eq_ok_iff_of_ofJson ht).2 ⟨cs, hcs, rfl⟩, ofStatements_eq_gate _ _, fun q name => ?_⟩
  show Readded _ (ofStatements false _) q name ↔ _
  rw [ofStatements_eq_gate false, readded_gate_iff]
  exact and_congr (dropColumn_mem_ofStatements_iff hcs)
    (exists_congr fun type => addColumn_mem_ofStatements_iff hcs)

/-! ## A retyped column -/

/-- A table of which a column gets a type that its old one cannot be converted to. -/
def retypedAge : Json :=
  let version (type : String) : Json := .obj [("name", .str "age"), ("type", .str type)]
  let age : Json := .obj [("name", .str "age"), ("type", .str "string"),
    ("compMod", .obj [("oldField", version "numeric"), ("newField", version "string")])]
  let role : Json := .obj [("code", .str "users"), ("compMod", .obj [("keyspaceName", .str "app")])]
  ChangeTree.rootOf .tables .modified
    [("users", .obj [("role", role), ("properties", .obj [("age", age)])])]

def retypedTree : ChangeTree := ⟨retypedAge.get? "properties"⟩

/-- The column as it is read. -/
def retypedField : Field where
  name := some "age"
  typeName := some "string"
  comparison := some
    { old := some { name := some "age", typeName := some "numeric" }
      new := some { name := some "age", typeName := some "string" } }

/-- The table as it is read. -/
def retypedTable : Table where
  role := { code := some "users", comparison := some { keyspace := some "app" } }
  properties := some (.named [("age", retypedField)])

/-- The drop of the column is commented out, and its addition takes effect. -/
theorem drop_without_effect_of_retypedAge :
    ∃ applied final,
      ofTree Resolver.builtin .empty { applyDrops := true } retypedAge = .ok applied ∧
      ofTree Resolver.builtin .empty {} retypedAge = .ok final ∧
      final.map (fun st => (st.active, st.text)) =
        [(true, ""),
          (false, "-- ALTER TABLE \"app\".\"users\" DROP \"age\";"),
          (true, "ALTER TABLE \"app\".\"users\" ADD \"age\" text;")] ∧
      Readded applied final ⟨some "app", "users"⟩ "age" :=
  ⟨[⟨"", true, .modify, .table⟩,
      ⟨"ALTER TABLE \"app\".\"users\" DROP \"age\";", true, .drop, .field⟩,
      ⟨"ALTER TABLE \"app\".\"users\" ADD \"age\" text;", true, .add, .field⟩],
    [⟨"", true, .modify, .table⟩,
      ⟨"-- ALTER TABLE \"app\".\"users\" DROP \"age\";", false, .drop, .field⟩,
      ⟨"ALTER TABLE \"app\".\"users\" ADD \"age\" text;", true, .add, .field⟩],
    rfl, rfl, rfl, ⟨⟨_, .tail _ (.head _), rfl⟩, "text", .tail _ (.tail _ (.head _))⟩⟩

theorem readded_of_retypedAge :
    ∃ applied final,
      ofTree Resolver.builtin .empty { applyDrops := true } retypedAge = .ok applied ∧
      ofTree Resolver.builtin .empty {} retypedAge = .ok final ∧
      Readded applied final ⟨some "app", "users"⟩ "age" := by
  have ht : ChangeTree.ofJson retypedAge = .ok retypedTree := rfl
  have hn : (⟨"users", retypedTable⟩ : Child Table) ∈
      retypedTree.children Table.ofJson? .tables .modified := List.mem_singleton.2 rfl
  have hc : retypedTable.ByColumn (scope Resolver.builtin .empty false retypedTree)
      { keyspace := some "app" } := ⟨rfl, rfl, rfl, rfl, rfl⟩
  have hconvert : CqlType.Inconvertible false (some "int") (some "text") :=
    CqlType.inconvertible_some_some.2 ⟨by decide, fun h => Bool.false_ne_true h.1⟩
  have hdisplaced : retypedField.Displaced (scope Resolver.builtin .empty false retypedTree) "age"
      "age" ⟨"age", "text"⟩ :=
    ⟨"text", some "int", some "text", ⟨rfl, rfl, rfl, rfl, rfl⟩, rfl, .inr hconvert⟩
  have he : ("age", retypedField) ∈ retypedTable.columns := List.mem_singleton.2 rfl
  obtain ⟨hexists, hall⟩ := readded_iff Resolver.builtin .empty {} ht
  obtain ⟨final, hfinal⟩ := hexists Resolver.answers_builtin
  obtain ⟨applied, happlied, _, hiff⟩ := hall final hfinal
  refine ⟨applied, final, happlied, hfinal, (hiff _ _).2 ⟨?_, "text", ?_⟩⟩
  · exact ⟨.modified, _, hn, _, hc, rfl, _, he, .displaced rfl rfl hdisplaced⟩
  · exact ⟨.modified, _, hn, _, hc, rfl, _, he, .displaced rfl rfl hdisplaced⟩

end Script

end AlterScript
