/-
  What a script is generated from.

  `generated_eq_ok_iff` and `ofTree_eq_ok_iff` open a successful run: the tree that was read, the
  commands of its nodes, and their statements. `mem_commands_iff`: every command is one of some
  node.
-/
import AlterScript.Script.Compile

namespace AlterScript

/-! ## Results -/

theorem bind_eq_ok_iff {ε α β : Type} {x : Except ε α} {f : α → Except ε β} {b : β} :
    (x >>= f) = .ok b ↔ ∃ a, x = .ok a ∧ f a = .ok b := by
  cases x with
  | error e => simp [bind, Except.bind]
  | ok a => simp [bind, Except.bind]

theorem map_eq_ok_iff {ε α β : Type} {x : Except ε α} {f : α → β} {b : β} :
    x.map f = .ok b ↔ ∃ a, x = .ok a ∧ f a = b := by
  cases x with
  | error e => simp [Except.map]
  | ok a => simp [Except.map]

theorem mapError_eq_ok_iff {ε δ α : Type} {x : Except ε α} {f : ε → δ} {a : α} :
    x.mapError f = .ok a ↔ x = .ok a := by
  cases x with
  | error e =>
    show (.error (f e) : Except δ α) = .ok a ↔ (.error e : Except ε α) = .ok a
    simp
  | ok b =>
    show (.ok b : Except δ α) = .ok a ↔ (.ok b : Except ε α) = .ok a
    simp

theorem pure_eq_ok_iff {ε α : Type} {a b : α} : (pure a : Except ε α) = .ok b ↔ a = b := by
  simp [pure, Except.pure]

/-! ## Trees -/

namespace ChangeTree

/-- The root of a tree that holds some nodes in one bucket of one part. -/
def rootOf (p : Partition) (b : Bucket) (nodes : Entries Json) : Json :=
  let bucket : Json := .obj [("items", .obj [("properties", .obj nodes)])]
  .obj [("properties", .obj [(p.key, .obj [("properties", .obj [(b.key, bucket)])])])]

/-- A wrapper of some nodes. -/
def wrapperOf (nodes : Entries Json) : Json := .obj [("properties", .obj nodes)]

/-- A part of a tree, with items in one bucket. -/
def partOf (p : Partition) (b : Bucket) (items : Json) : String × Json :=
  (p.key, .obj [("properties", .obj [(b.key, .obj [("items", items)])])])

/-- The root of a tree that has some parts. -/
def rootOfParts (parts : Entries Json) : Json := .obj [("properties", .obj parts)]

end ChangeTree

namespace Script

/-! ## Nodes -/

section Nodes

variable {α : Type} {f : α → Except ResolveError (List Command)} {xs : List α} {cs : List Command}

theorem ofEach_cons_eq_ok_iff {x : α} :
    ofEach f (x :: xs) = .ok cs ↔
      ∃ first rest, f x = .ok first ∧ ofEach f xs = .ok rest ∧ first ++ rest = cs := by
  simp only [ofEach, bind_eq_ok_iff, pure_eq_ok_iff]
  constructor
  · rintro ⟨first, hfirst, rest, hrest, rfl⟩
    exact ⟨first, rest, hfirst, hrest, rfl⟩
  · rintro ⟨first, rest, hfirst, hrest, rfl⟩
    exact ⟨first, hfirst, rest, hrest, rfl⟩

theorem mem_ofEach_iff (h : ofEach f xs = .ok cs) (c : Command) :
    c ∈ cs ↔ ∃ x ∈ xs, ∃ ys, f x = .ok ys ∧ c ∈ ys := by
  induction xs generalizing cs with
  | nil =>
    obtain rfl : [] = cs := by simpa [ofEach] using h
    simp
  | cons x xs ih =>
    obtain ⟨first, rest, hfirst, hrest, rfl⟩ := ofEach_cons_eq_ok_iff.1 h
    simp only [List.mem_append, ih hrest, List.mem_cons, exists_eq_or_imp, hfirst,
      Except.ok.injEq, exists_eq_left']

/-- Where all nodes together have commands, each of them has. -/
theorem exists_of_mem_of_ofEach (h : ofEach f xs = .ok cs) {x : α} (hx : x ∈ xs) :
    ∃ ys, f x = .ok ys := by
  induction xs generalizing cs with
  | nil => simp at hx
  | cons y xs ih =>
    obtain ⟨first, rest, hfirst, hrest, rfl⟩ := ofEach_cons_eq_ok_iff.1 h
    rcases List.mem_cons.1 hx with rfl | hx
    · exact ⟨first, hfirst⟩
    · exact ih hrest hx

section Buckets

variable {nodes : Bucket → List α} {f : Bucket → α → Except ResolveError (List Command)}
  {bs : List Bucket} (hbs : ∀ b, b ∈ bs) (h : ofEach (fun b => ofEach (f b) (nodes b)) bs = .ok cs)

include hbs h

theorem exists_of_mem_of_ofEach_buckets {b : Bucket} {n : α} (hn : n ∈ nodes b) :
    ∃ ys, f b n = .ok ys := by
  obtain ⟨ys, hys⟩ := exists_of_mem_of_ofEach h (hbs b)
  exact exists_of_mem_of_ofEach hys hn

/-- The commands of the nodes of all buckets, whatever the order of the buckets. -/
theorem mem_ofEach_buckets_iff (c : Command) :
    c ∈ cs ↔ ∃ b, ∃ n ∈ nodes b, ∃ ys, f b n = .ok ys ∧ c ∈ ys := by
  rw [mem_ofEach_iff h]
  constructor
  · rintro ⟨b, _, ys, hys, hc⟩
    exact ⟨b, (mem_ofEach_iff hys c).1 hc⟩
  · rintro ⟨b, hn⟩
    obtain ⟨ys, hys⟩ := exists_of_mem_of_ofEach h (hbs b)
    exact ⟨b, hbs b, ys, hys, (mem_ofEach_iff hys c).2 hn⟩

end Buckets

end Nodes

end Script

/-! ## Columns and fields -/

/-- The commands for one column of a table. -/
def Table.commandsOfColumn (s : Scope) (d : Direction) (target : QualifiedName)
    (indexed : List String) (e : String × Field) : Except ResolveError (List Command) :=
  if isPassedOver d e.2 then .ok []
  else (s.typeOf e.2 e.1).bind fun
    | none => .ok []
    | some type =>
      if isUntouched indexed d e.1 e.2 then .ok [] else columnCommands s d target ⟨e.1, type⟩ e.2

theorem Table.commandsOfColumn_update (s : Scope) (target : QualifiedName) (indexed : List String)
    (e : String × Field) :
    commandsOfColumn s .update target indexed e = (s.typeOf e.2 e.1).bind fun
      | none => .ok []
      | some type =>
        if isUntouched indexed .update e.1 e.2 then .ok []
        else columnCommands s .update target ⟨e.1, type⟩ e.2 :=
  if_neg Bool.false_ne_true

theorem Table.updateColumns_eq_ofEach (s : Scope) (d : Direction) (target : QualifiedName)
    (indexed : List String) (fs : List (String × Field)) :
    updateColumns s d target indexed fs =
      Script.ofEach (commandsOfColumn s d target indexed) fs := by
  induction fs with
  | nil => rfl
  | cons e r ih =>
    obtain ⟨name, f⟩ := e
    rw [updateColumns, Script.ofEach, ih, commandsOfColumn]
    by_cases hp : isPassedOver d f = true
    · simp only [hp, if_true]
      cases Script.ofEach (commandsOfColumn s d target indexed) r with
      | error e => rfl
      | ok rest => rfl
    · simp only [hp, Bool.false_eq_true, if_false]
      cases s.typeOf f name with
      | error e => rfl
      | ok type =>
        cases type with
        | none => rfl
        | some type =>
          by_cases hu : isUntouched indexed d name f = true
          · simp only [bind, Except.bind, hu, if_true]
            rfl
          · simp only [bind, Except.bind, hu, Bool.false_eq_true, if_false]

/-- The commands for one field of a type. -/
def UserType.commandsOfField (s : Scope) (t : UserType) (target : QualifiedName)
    (e : String × Field) : Except ResolveError (List Command) :=
  (changeOf s e.1 e.2).bind (t.fieldCommands s target)

theorem UserType.updateFields_eq_ofEach (s : Scope) (t : UserType) (target : QualifiedName)
    (fs : List (String × Field)) :
    t.updateFields s target fs = Script.ofEach (t.commandsOfField s target) fs := by
  induction fs with
  | nil => rfl
  | cons e r ih =>
    obtain ⟨name, f⟩ := e
    rw [updateFields, Script.ofEach, ih, commandsOfField]
    cases changeOf s name f with
    | error e => rfl
    | ok change => rfl

namespace Script

section Commands

variable {s : Scope} {t : ChangeTree} {c : Command}

/-- A command of some table of a tree. -/
def OfTable (s : Scope) (t : ChangeTree) (c : Command) : Prop :=
  ∃ b, ∃ n ∈ t.children Table.ofJson? .tables b, ∃ ys,
    n.node.commands s (.ofBucket b) n.key = .ok ys ∧ c ∈ ys

/-- A command of some user-defined type of a tree. -/
def OfType (s : Scope) (t : ChangeTree) (c : Command) : Prop :=
  ∃ b, ∃ n ∈ typeNodes t b, ∃ ys, n.node.commands s (.ofBucket b) n.key = .ok ys ∧ c ∈ ys

/-- Where a tree has commands, each of its tables has. -/
theorem exists_table_commands {skipKeyspaces : Bool} {cs : List Command}
    (h : commands s skipKeyspaces t = .ok cs) {b : Bucket} {n : Child Table}
    (hn : n ∈ t.children Table.ofJson? .tables b) :
    ∃ ys, n.node.commands s (.ofBucket b) n.key = .ok ys := by
  simp only [commands, bind_eq_ok_iff] at h
  obtain ⟨ts, hts, _⟩ := h
  have hb : ∀ b, b ∈ [Bucket.modified, .added, .deleted] := by intro b; cases b <;> simp
  exact exists_of_mem_of_ofEach_buckets hb hts hn

/-- Where a tree has commands, each of its user-defined types has. -/
theorem exists_type_commands {skipKeyspaces : Bool} {cs : List Command}
    (h : commands s skipKeyspaces t = .ok cs) {b : Bucket} {n : Child UserType}
    (hn : n ∈ typeNodes t b) : ∃ ys, n.node.commands s (.ofBucket b) n.key = .ok ys := by
  simp only [commands, bind_eq_ok_iff] at h
  obtain ⟨_, _, us, hus, _⟩ := h
  have hb : ∀ b, b ∈ [Bucket.added, .modified, .deleted] := by intro b; cases b <;> simp
  exact exists_of_mem_of_ofEach_buckets hb hus hn

/-- Every command is one of a table, of a keyspace, of a view or of a type. -/
theorem mem_commands_iff {skipKeyspaces : Bool} {cs : List Command}
    (h : commands s skipKeyspaces t = .ok cs) :
    c ∈ cs ↔ OfTable s t c ∨ (skipKeyspaces = false ∧ ∃ b, c ∈ keyspaces t b) ∨
      (∃ b, c ∈ views t b) ∨ OfType s t c := by
  simp only [commands, bind_eq_ok_iff, pure_eq_ok_iff] at h
  obtain ⟨ts, hts, us, hus, rfl⟩ := h
  have hb : ∀ b, b ∈ [Bucket.modified, .added, .deleted] := by intro b; cases b <;> simp
  have hb' : ∀ b, b ∈ [Bucket.added, .modified, .deleted] := by intro b; cases b <;> simp
  have htables : c ∈ ts ↔ OfTable s t c := mem_ofEach_buckets_iff hb hts c
  have htypes : c ∈ us ↔ OfType s t c := mem_ofEach_buckets_iff hb' hus c
  have hkeyspaces : c ∈ (if skipKeyspaces then [] else
        [Bucket.added, .modified, .deleted].flatMap (keyspaces t)) ↔
      skipKeyspaces = false ∧ ∃ b, c ∈ keyspaces t b := by
    cases skipKeyspaces with
    | true => simp
    | false =>
      rw [if_neg Bool.false_ne_true, List.mem_flatMap]
      simp only [hb', true_and]
  rw [List.mem_append, List.mem_append, List.mem_append, htables, htypes, hkeyspaces,
    List.mem_flatMap, or_assoc, or_assoc]
  simp only [hb, true_and]

end Commands

variable {resolver : Resolver} {references : References} {mode : Mode} {root : Json}

/-! ## Runs -/

theorem generated_eq_ok_iff {raw : List Statement} :
    generated resolver references mode root = .ok raw ↔
      ∃ t cs, ChangeTree.ofJson root = .ok t ∧
        commands (scope resolver references mode.legacy t) mode.skipKeyspaces t = .ok cs ∧
        raw = cs.map Command.statement := by
  simp only [generated, bind_eq_ok_iff, mapError_eq_ok_iff, pure_eq_ok_iff]
  constructor
  · rintro ⟨t, ht, cs, hcs, rfl⟩
    exact ⟨t, cs, ht, hcs, rfl⟩
  · rintro ⟨t, cs, ht, hcs, rfl⟩
    exact ⟨t, ht, cs, hcs, rfl⟩

theorem ofTree_eq_ok_iff {final : List Statement} :
    ofTree resolver references mode root = .ok final ↔
      ∃ raw, generated resolver references mode root = .ok raw ∧
        final = ofStatements mode.applyDrops raw := by
  rw [ofTree, map_eq_ok_iff]
  simp only [eq_comm]

/-- The script of a tree has the statements of the commands of the tree. -/
theorem ofTree_eq_ok_iff_of_ofJson {t : ChangeTree} (ht : ChangeTree.ofJson root = .ok t)
    {final : List Statement} :
    ofTree resolver references mode root = .ok final ↔
      ∃ cs, commands (scope resolver references mode.legacy t) mode.skipKeyspaces t = .ok cs ∧
        final = ofStatements mode.applyDrops (cs.map Command.statement) := by
  rw [ofTree_eq_ok_iff]
  constructor
  · rintro ⟨raw, hraw, rfl⟩
    obtain ⟨t', cs, ht', hcs, rfl⟩ := generated_eq_ok_iff.1 hraw
    obtain rfl := Except.ok.inj (ht.symm.trans ht')
    exact ⟨cs, hcs, rfl⟩
  · rintro ⟨cs, hcs, rfl⟩
    exact ⟨_, generated_eq_ok_iff.2 ⟨t, cs, ht, hcs, rfl⟩, rfl⟩

/-- What is generated does not depend on whether drops are applied. -/
theorem generated_applyDrops (applyDrops : Bool) :
    generated resolver references { mode with applyDrops } root =
      generated resolver references mode root := rfl

/-- Every generated statement is the statement of some command. -/
theorem exists_command_of_mem_generated {raw : List Statement}
    (h : generated resolver references mode root = .ok raw) {s : Statement} (hs : s ∈ raw) :
    ∃ c : Command, c.statement = s := by
  obtain ⟨t, cs, _, _, rfl⟩ := generated_eq_ok_iff.1 h
  obtain ⟨c, _, hc⟩ := List.mem_map.1 hs
  exact ⟨c, hc⟩

end Script

end AlterScript
