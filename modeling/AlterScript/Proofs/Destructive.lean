/-
  Whether a script drops anything.

  `Text.length_lt_commentOut`: commenting a text out makes it longer, whatever line endings get lost
  on the way. So a script with drops is longer without drops applied (`Script.length_text_lt`), and
  all ways to ask whether a tree asks for drops agree: `Script.ways_to_ask_agree`.
-/
import Mathlib.Algebra.GroupWithZero.Nat
import Mathlib.Algebra.Order.BigOperators.Group.List
import Mathlib.Algebra.Order.Group.Nat
import Mathlib.Tactic.TFAE
import AlterScript.CommandLine.Run
import AlterScript.Proofs.Gating

namespace AlterScript

namespace Text

/-! ## Lengths -/

/-- The end of a line is at most two characters long. -/
theorem length_le_lineChars (cs : List Char) :
    cs.length ≤ ((lineChars cs).map (List.length · + 2)).sum := by
  fun_induction lineChars cs with
  | case1 => simp
  | case2 r ih =>
    simp only [List.length_cons, List.map_cons, List.sum_cons, List.length_nil]
    omega
  | case3 r ih =>
    simp only [List.length_cons, List.map_cons, List.sum_cons, List.length_nil]
    omega
  | case4 c r _ _ hlines ih =>
    rw [hlines] at ih
    simp only [List.map_nil, List.sum_nil, List.length_cons, List.map_cons, List.sum_cons,
      List.length_nil] at ih ⊢
    omega
  | case5 c r _ _ l ls hlines ih =>
    rw [hlines] at ih
    simp only [List.length_cons, List.map_cons, List.sum_cons] at ih ⊢
    omega

theorem length_join (separator : String) (ss : List String) :
    (join separator ss).length =
      (ss.map String.length).sum + (ss.length - 1) * separator.length := by
  induction ss with
  | nil => simp
  | cons s r ih =>
    cases r with
    | nil => simp
    | cons t r =>
      rw [join_cons_cons, String.length_append, String.length_append, ih]
      simp only [List.map_cons, List.sum_cons, List.length_cons, Nat.add_sub_cancel, Nat.add_mul,
        Nat.one_mul]
      omega

/-- A line gains three characters at its beginning and loses at most two at its end. -/
theorem length_lt_commentOut {s : String} (h : s ≠ "") : s.length < (commentOut s).length := by
  have hlines : 0 < (lineChars s.toList).length :=
    List.length_pos_of_ne_nil (lineChars_ne_nil (by simpa using h))
  have hle : s.length ≤ ((lineChars s.toList).map (List.length · + 2)).sum := by
    rw [← String.length_toList]
    exact length_le_lineChars s.toList
  have hmark : ∀ l : List Char, ("-- " ++ String.ofList l).length = (l.length + 2) + 1 := by
    intro l
    have hdashes : "-- ".length = 3 := rfl
    rw [String.length_append, hdashes, String.length_ofList]
    omega
  have hmarked : (((lines s).map ("-- " ++ ·)).map String.length).sum =
      ((lineChars s.toList).map (List.length · + 2)).sum + (lineChars s.toList).length := by
    rw [lines, List.map_map, List.map_map]
    simp only [Function.comp_def, hmark]
    rw [List.sum_map_add, List.map_const', List.sum_replicate, Nat.nsmul_eq_mul, Nat.mul_one]
  rw [commentOut, length_join, hmarked]
  omega

theorem isBlank_commentOut {s : String} (h : s ≠ "") : isBlank (commentOut s) = false := by
  have hne : lineChars s.toList ≠ [] := lineChars_ne_nil (by simpa using h)
  obtain ⟨l, ls, hlines⟩ := List.exists_cons_of_ne_nil hne
  have hmark : '-' ∈ (commentOut s).toList := by
    rw [commentOut, lines, hlines]
    cases ls with
    | nil => simp
    | cons k ls => simp [join_cons_cons]
  by_contra hblank
  have : blank '-' = true := List.all_eq_true.1 (by simpa [isBlank] using hblank) _ hmark
  exact absurd this (by decide)

end Text

namespace Statement

/-- A statement as it stands in a script without drops. -/
def gated (s : Statement) : Statement := if s.isDestructive then s.commentedOut else s

theorem gated_of_isDestructive {s : Statement} (h : s.isDestructive = true) :
    s.gated = s.commentedOut := if_pos h

theorem gated_of_not_isDestructive {s : Statement} (h : s.isDestructive = false) : s.gated = s :=
  if_neg (by simp [h])

theorem isBlank_gated (s : Statement) : s.gated.isBlank = s.isBlank := by
  cases h : s.isDestructive with
  | false => rw [gated_of_not_isDestructive h]
  | true =>
    rw [gated_of_isDestructive h, ((isDestructive_iff s).1 h).2]
    exact Text.isBlank_commentOut (text_ne_empty_of_isDestructive h)

theorem length_text_lt_gated {s : Statement} (h : s.isDestructive = true) :
    s.text.length < s.gated.text.length := by
  rw [gated_of_isDestructive h]
  exact Text.length_lt_commentOut (text_ne_empty_of_isDestructive h)

theorem length_text_le_gated (s : Statement) : s.text.length ≤ s.gated.text.length := by
  cases h : s.isDestructive with
  | false => rw [gated_of_not_isDestructive h]
  | true => exact (length_text_lt_gated h).le

end Statement

namespace Script

/-! ## Gated scripts -/

section Gate

variable {ss : List Statement}

theorem gate_false (ss : List Statement) : gate false ss = ss.map Statement.gated := rfl

theorem text_gate_false (ss : List Statement) :
    text (gate false ss) =
      Text.join "\n\n" ((ss.filter fun s => !s.isBlank).map fun s => s.gated.text) := by
  rw [text, gate_false, List.filter_map, List.map_map]
  simp only [Function.comp_def, Statement.isBlank_gated]

/-- A script that drops something is longer when its drops are commented out. -/
theorem length_text_lt (h : ∃ s ∈ ss, s.isDestructive = true) :
    (text ss).length < (text (gate false ss)).length := by
  obtain ⟨s, hs, hdestructive⟩ := h
  have hsaid : s ∈ ss.filter fun s => !s.isBlank := by
    rw [List.mem_filter, ((Statement.isDestructive_iff s).1 hdestructive).2]
    exact ⟨hs, rfl⟩
  have hsum : ((ss.filter fun s => !s.isBlank).map fun s => s.text.length).sum <
      ((ss.filter fun s => !s.isBlank).map fun s => s.gated.text.length).sum :=
    List.sum_lt_sum _ _ (fun s _ => s.length_text_le_gated)
      ⟨s, hsaid, Statement.length_text_lt_gated hdestructive⟩
  rw [text_gate_false, text, Text.length_join, Text.length_join, List.map_map, List.map_map,
    List.length_map, List.length_map]
  exact Nat.add_lt_add_right hsum _

theorem gate_false_eq_self (h : ∀ s ∈ ss, s.isDestructive = false) : gate false ss = ss := by
  have hself : ∀ s ∈ ss, s.gated = id s := fun s hs => Statement.gated_of_not_isDestructive (h s hs)
  rw [gate_false, List.map_congr_left hself, List.map_id]

theorem text_ne_text_gate_iff :
    text ss ≠ text (gate false ss) ↔ ∃ s ∈ ss, s.isDestructive = true := by
  constructor
  · intro hne
    by_contra hnone
    push Not at hnone
    exact hne (by rw [gate_false_eq_self fun s hs => by simpa using hnone s hs])
  · intro h he
    exact absurd (congrArg String.length he) (length_text_lt h).ne

/-- Of statements that all take effect, gating leaves without effect those that drop something. -/
theorem filter_inactive_gate (hactive : ∀ s ∈ ss, s.active = true) :
    (gate false ss).filter (!·.active) =
      (ss.filter Statement.isDestructive).map Statement.commentedOut := by
  induction ss with
  | nil => rfl
  | cons s r ih =>
    have ih := ih fun t ht => hactive t (List.mem_cons_of_mem s ht)
    have hs := hactive s List.mem_cons_self
    rw [gate_false] at ih ⊢
    cases h : s.isDestructive with
    | false => simp [Statement.gated_of_not_isDestructive h, h, hs, ih]
    | true => simp [Statement.gated_of_isDestructive h, h, ih, Statement.commentedOut]

theorem exists_inactive_gate_iff (hactive : ∀ s ∈ ss, s.active = true) :
    (∃ s ∈ gate false ss, s.active = false) ↔ ∃ s ∈ ss, s.isDestructive = true := by
  constructor
  · rintro ⟨s, hs, hinactive⟩
    have hmem : s ∈ (gate false ss).filter (!·.active) :=
      List.mem_filter.2 ⟨hs, by simp [hinactive]⟩
    rw [filter_inactive_gate hactive] at hmem
    obtain ⟨t, ht, _⟩ := List.mem_map.1 hmem
    exact ⟨t, List.mem_filter.1 ht⟩
  · rintro ⟨s, hs, h⟩
    refine ⟨s.gated, List.mem_map_of_mem hs, ?_⟩
    rw [Statement.gated_of_isDestructive h]
    rfl

end Gate

/-! ## Ways to ask -/

section Answers

variable {resolver : Resolver} {references : References} {mode : Mode} {root : Json}

/-- With drops applied, every statement takes effect. -/
theorem active_of_mem_ofStatements {raw : List Statement}
    (h : generated resolver references mode root = .ok raw) :
    ∀ s ∈ ofStatements true raw, s.active = true := by
  intro s hs
  obtain ⟨c, rfl⟩ := exists_command_of_mem_generated h (mem_ofStatements_true_iff.1 hs)
  exact c.active_statement

theorem ofTree_of_generated {raw : List Statement}
    (h : generated resolver references mode root = .ok raw) (applyDrops : Bool) :
    ofTree resolver references { mode with applyDrops } root =
      .ok (ofStatements applyDrops raw) := by
  rw [ofTree, generated_applyDrops, h]
  rfl

/-- With drops applied or not, a script has drops exactly if some were generated. -/
theorem tfae_of_active {raw : List Statement}
    (hactive : ∀ s ∈ ofStatements true raw, s.active = true) :
    [raw.any Statement.isDestructive = true,
      ∃ s ∈ ofStatements true raw, s.action = .drop ∧ s.isBlank = false,
      ∃ s ∈ ofStatements false raw, s.active = false,
      text (ofStatements true raw) ≠ text (ofStatements false raw)].TFAE := by
  rw [ofStatements_eq_gate false, text_ne_text_gate_iff, exists_inactive_gate_iff hactive]
  tfae_have 1 ↔ 4 := by
    simp only [List.any_eq_true, mem_ofStatements_true_iff]
  tfae_have 2 ↔ 4 := by
    simp only [Statement.isDestructive_iff]
  tfae_have 3 ↔ 4 := Iff.rfl
  tfae_finish

end Answers

end Script

namespace Invocation

/-- A run that finds this mode, this tree and these references. -/
structure Reads (i : Invocation) (inputs : Inputs) (mode : Mode) (root : Json)
    (references : References) : Prop where
  mode : i.mode inputs = .ok mode
  root : i.root inputs = .ok root
  references : i.references inputs = .ok references

variable {i : Invocation} {inputs : Inputs} {mode : Mode} {root : Json} {references : References}

theorem run_of_error {e : CompileError} (h : i.Reads inputs mode root references)
    (hi : i.purpose = .checkDrops)
    (hasked : Script.isDestructive Resolver.builtin references mode root = .error e) :
    i.run inputs = .error (.compile e) := by
  simp only [run, h.mode, h.root, h.references, hi, hasked, bind, Except.bind]
  rfl

theorem run_of_ok {destructive : Bool} {listed : List Statement}
    (h : i.Reads inputs mode root references) (hi : i.purpose = .checkDrops)
    (hasked : Script.isDestructive Resolver.builtin references mode root = .ok destructive)
    (hlisted : Script.drops Resolver.builtin references mode root = .ok listed) :
    i.run inputs =
      .ok (if destructive then .warn (dropReport listed)
        else .print "✓ No destructive statements\n") := by
  simp only [run, h.mode, h.root, h.references, hi, hasked, hlisted, bind, Except.bind]
  cases destructive with
  | false => rfl
  | true => rfl

end Invocation

namespace Script

/-- All ways to ask whether the change that a tree describes drops anything fail alike or agree: the
    statements that were generated, the drops of the script with drops applied, the comments of the
    script without, and whether the two scripts differ. As many drops are listed as there are
    comments, and they are what `check-drops` reports. -/
theorem ways_to_ask_agree (resolver : Resolver) (references : References) (mode : Mode)
    (root : Json) :
    (∃ e,
      isDestructive resolver references mode root = .error e ∧
      (∀ applyDrops,
        ofTree resolver references { mode with applyDrops } root = .error e ∧
        compile resolver references { mode with applyDrops } root = .error e) ∧
      (resolver = Resolver.builtin → ∀ (i : Invocation) (inputs : Inputs),
        i.purpose = .checkDrops → i.Reads inputs mode root references →
          i.run inputs = .error (.compile e))) ∨
    ∃ destructive applied gated listed,
      isDestructive resolver references mode root = .ok destructive ∧
      ofTree resolver references { mode with applyDrops := true } root = .ok applied ∧
      compile resolver references { mode with applyDrops := true } root = .ok (text applied) ∧
      ofTree resolver references { mode with applyDrops := false } root = .ok gated ∧
      compile resolver references { mode with applyDrops := false } root = .ok (text gated) ∧
      drops resolver references mode root = .ok listed ∧
      [destructive = true,
        ∃ s ∈ applied, s.action = .drop ∧ s.isBlank = false,
        ∃ s ∈ gated, s.active = false,
        text applied ≠ text gated].TFAE ∧
      listed.length = (gated.filter (!·.active)).length ∧
      (resolver = Resolver.builtin → ∀ (i : Invocation) (inputs : Inputs),
        i.purpose = .checkDrops → i.Reads inputs mode root references →
          i.run inputs = .ok (if destructive then .warn (Invocation.dropReport listed)
            else .print "✓ No destructive statements\n")) := by
  cases h : generated resolver references mode root with
  | error e =>
    have hasked : isDestructive resolver references mode root = .error e := by
      rw [isDestructive, h]
      rfl
    refine Or.inl ⟨e, hasked, fun applyDrops => ?_, ?_⟩
    · have hfails : ofTree resolver references { mode with applyDrops } root = .error e := by
        rw [ofTree, generated_applyDrops, h]
        rfl
      exact ⟨hfails, by rw [compile, hfails]; rfl⟩
    · rintro rfl i inputs hi hreads
      exact Invocation.run_of_error hreads hi hasked
  | ok raw =>
    have hofTree := ofTree_of_generated h
    have hactive := active_of_mem_ofStatements h
    have hasked : isDestructive resolver references mode root =
        .ok (raw.any Statement.isDestructive) := by
      rw [isDestructive, h]
      rfl
    have hlisted : drops resolver references mode root =
        .ok ((ofStatements true raw).filter Statement.isDestructive) := by
      rw [drops, hofTree true]
      rfl
    refine Or.inr ⟨_, _, _, _, hasked, hofTree true, ?_, hofTree false, ?_, hlisted,
      tfae_of_active hactive, ?_, ?_⟩
    · rw [compile, hofTree true]
      rfl
    · rw [compile, hofTree false]
      rfl
    · rw [ofStatements_eq_gate false, filter_inactive_gate hactive, List.length_map]
    · rintro rfl i inputs hi hreads
      exact Invocation.run_of_ok hreads hi hasked hlisted

/-- A keyspace that is gone. -/
def retiredKeyspace : Json :=
  ChangeTree.rootOf .keyspaces .deleted [("app", .obj [("role", .obj [("code", .str "app")])])]

/-- The tree as it comes in. -/
def retiredInput : Inputs where
  file _ := .missing
  standard := some
    ("\x7b\"properties\":\x7b\"containers\":\x7b\"properties\":\x7b\"deleted\":\x7b\"items\":"
      ++ "\x7b\"properties\":\x7b\"app\":\x7b\"role\":\x7b\"code\":\"app\"\x7d\x7d\x7d\x7d\x7d\x7d\x7d\x7d\x7d")

/-- The question for its drops. -/
def retiredCheck : Invocation where
  purpose := .checkDrops
  tree := "-"
  settingsFile := Invocation.defaultSettingsFile

theorem reads_retiredCheck : retiredCheck.Reads retiredInput {} retiredKeyspace .empty :=
  ⟨rfl, rfl, rfl⟩

/-- The drop of the keyspace is the one comment of the script, and it is reported. -/
theorem ways_to_ask_of_retiredKeyspace :
    ∃ gated,
      ofTree Resolver.builtin .empty {} retiredKeyspace = .ok gated ∧
      (gated.filter (!·.active)).length = 1 ∧
      retiredCheck.run retiredInput = .ok (.warn
        ("warning: Migration contains 1 destructive statement(s):\n"
          ++ "  DROP KEYSPACE IF EXISTS \"app\";\n")) := by
  obtain ⟨e, hfails, _⟩ | ⟨destructive, applied, gated, listed, hasked, _, _, hgated, _, hlisted, _,
    hlength, hrun⟩ := ways_to_ask_agree Resolver.builtin .empty {} retiredKeyspace
  · obtain ⟨b, hb⟩ : ∃ b, isDestructive Resolver.builtin .empty {} retiredKeyspace = .ok b :=
      ⟨_, rfl⟩
    rw [hb] at hfails
    cases hfails
  · obtain rfl : true = destructive := Except.ok.inj hasked
    obtain rfl : [(Command.dropKeyspace "app").statement] = listed := Except.ok.inj hlisted
    exact ⟨gated, hgated, hlength.symm, hrun rfl _ _ rfl reads_retiredCheck⟩

end Script

end AlterScript
