/-
  Scripts that leave keyspaces alone.

  Dropping duplicates, gating and ordering can be done before or after statements of some levels are
  left out (`ofStatements_filter_level`), and of all nodes only keyspaces have commands of their
  level. So the script without keyspaces is what remains of the script with them:
  `Script.ofTree_skipKeyspaces`.
-/
import AlterScript.Proofs.Levels
import AlterScript.Proofs.ScriptOrder

namespace AlterScript

namespace Script

/-! ## Statements left out -/

theorem distinct_filter (p : Statement → Bool) (ss : List Statement) :
    distinct (ss.filter p) = (distinct ss).filter p := by
  induction ss with
  | nil => rfl
  | cons s r ih =>
    cases hs : p s with
    | true =>
      rw [List.filter_cons_of_pos hs, distinct, distinct, List.filter_cons_of_pos hs, ih,
        List.filter_filter, List.filter_filter]
      simp only [Bool.and_comm]
    | false =>
      -- What is left out at the head is left out of the rest by either filter.
      have hrest : ((distinct r).filter (· ≠ s)).filter p = (distinct r).filter p := by
        rw [List.filter_filter]
        refine List.filter_congr fun x _ => ?_
        by_cases hx : x = s <;> simp [hx, hs]
      rw [List.filter_cons_of_neg (by simp [hs]), distinct, List.filter_cons_of_neg (by simp [hs]),
        ih, hrest]

theorem gate_filter_level (applyDrops : Bool) (p : Level → Bool) (ss : List Statement) :
    gate applyDrops (ss.filter fun s => p s.level) =
      (gate applyDrops ss).filter fun s => p s.level := by
  cases applyDrops with
  | true => rfl
  | false =>
    have hlevel : ∀ s : Statement,
        (if s.isDestructive then s.commentedOut else s).level = s.level := by
      intro s
      split <;> rfl
    show (ss.filter _).map _ = (ss.map _).filter _
    rw [List.filter_map]
    simp only [Function.comp_def, hlevel]

theorem inOrder_filter (p : Statement → Bool) (ss : List Statement) :
    inOrder (ss.filter p) = (inOrder ss).filter p := by
  have hcomm : ∀ q : Statement → Bool, (ss.filter p).filter q = (ss.filter q).filter p := by
    intro q
    rw [List.filter_filter, List.filter_filter]
    simp only [Bool.and_comm]
  simp only [inOrder, List.filter_append, List.filter_flatMap, hcomm]

theorem ofStatements_filter_level (applyDrops : Bool) (p : Level → Bool) (ss : List Statement) :
    ofStatements applyDrops (ss.filter fun s => p s.level) =
      (ofStatements applyDrops ss).filter fun s => p s.level := by
  rw [ofStatements, distinct_filter, gate_filter_level, inOrder_filter]
  rfl

/-! ## Keyspaces -/

variable {s : Scope} {t : ChangeTree} {b : Bucket} {c : Command} {cs : List Command}

theorem level_of_mem_keyspaces (h : c ∈ keyspaces t b) : c.level = .keyspace := by
  obtain ⟨n, _, hc⟩ := List.mem_flatMap.1 h
  exact Keyspace.level_of_mem_commands hc

theorem level_ne_of_mem_views (h : c ∈ views t b) : c.level ≠ .keyspace := by
  obtain ⟨n, _, hc⟩ := List.mem_flatMap.1 h
  simp [View.level_of_mem_commands hc]

theorem level_ne_of_mem_tables {bs : List Bucket} (h : ofEach (tables s t) bs = .ok cs)
    (hc : c ∈ cs) : c.level ≠ .keyspace := by
  obtain ⟨b, _, ys, hys, hc⟩ := (mem_ofEach_iff h c).1 hc
  obtain ⟨n, _, zs, hzs, hc⟩ := (mem_ofEach_iff hys c).1 hc
  rcases Table.level_of_mem_commands hzs hc with h | h | h <;> simp [h]

theorem level_ne_of_mem_types {bs : List Bucket} (h : ofEach (types s t) bs = .ok cs)
    (hc : c ∈ cs) : c.level ≠ .keyspace := by
  obtain ⟨b, _, ys, hys, hc⟩ := (mem_ofEach_iff h c).1 hc
  obtain ⟨n, _, zs, hzs, hc⟩ := (mem_ofEach_iff hys c).1 hc
  simp [UserType.level_of_mem_commands hzs hc]

/-- Without keyspaces a tree has its commands of the other levels, in the same order. -/
theorem commands_skipKeyspaces (s : Scope) (t : ChangeTree) :
    commands s true t = (commands s false t).map (List.filter fun c => c.level ≠ .keyspace) := by
  rw [commands, commands]
  cases htables : ofEach (tables s t) [.modified, .added, .deleted] with
  | error e => rfl
  | ok ts =>
    cases htypes : ofEach (types s t) [.added, .modified, .deleted] with
    | error e => rfl
    | ok us =>
      have hts : ts.filter (fun c => c.level ≠ .keyspace) = ts :=
        List.filter_eq_self.2 fun c hc => decide_eq_true (level_ne_of_mem_tables htables hc)
      have hus : us.filter (fun c => c.level ≠ .keyspace) = us :=
        List.filter_eq_self.2 fun c hc => decide_eq_true (level_ne_of_mem_types htypes hc)
      have hks : ([Bucket.added, .modified, .deleted].flatMap (keyspaces t)).filter
          (fun c => c.level ≠ .keyspace) = [] := by
        refine List.filter_eq_nil_iff.2 fun c hc => ?_
        obtain ⟨b, _, hc⟩ := List.mem_flatMap.1 hc
        simp [level_of_mem_keyspaces hc]
      have hvs : ([Bucket.modified, .added, .deleted].flatMap (views t)).filter
          (fun c => c.level ≠ .keyspace) =
          [Bucket.modified, .added, .deleted].flatMap (views t) := by
        refine List.filter_eq_self.2 fun c hc => ?_
        obtain ⟨b, _, hc⟩ := List.mem_flatMap.1 hc
        exact decide_eq_true (level_ne_of_mem_views hc)
      show Except.ok (ts ++ [] ++ _ ++ us) = Except.ok (List.filter _ (ts ++ _ ++ _ ++ us))
      rw [List.filter_append, List.filter_append, List.filter_append, hts,
        if_neg Bool.false_ne_true, hks, hvs, hus]

/-- A script without keyspaces fails exactly as the script with them, or has all its statements but
    those for keyspaces, in the same order. -/
theorem ofTree_skipKeyspaces (resolver : Resolver) (references : References) (mode : Mode)
    (root : Json) :
    ofTree resolver references { mode with skipKeyspaces := true } root =
      (ofTree resolver references { mode with skipKeyspaces := false } root).map
        (List.filter fun st => st.level ≠ .keyspace) := by
  rw [ofTree, ofTree, generated, generated]
  cases ht : ChangeTree.ofJson root with
  | error e => rfl
  | ok t =>
    show Except.map _ (((commands _ true t).mapError CompileError.resolve).bind _) =
      (Except.map _ (((commands _ false t).mapError CompileError.resolve).bind _)).map _
    rw [commands_skipKeyspaces]
    cases commands (scope resolver references mode.legacy t) false t with
    | error e => rfl
    | ok cs =>
      show Except.ok (ofStatements mode.applyDrops ((cs.filter _).map Command.statement)) =
        Except.ok ((ofStatements mode.applyDrops (cs.map Command.statement)).filter _)
      rw [← ofStatements_filter_level mode.applyDrops (fun l => l ≠ .keyspace), List.filter_map]
      rfl

end Script

end AlterScript
