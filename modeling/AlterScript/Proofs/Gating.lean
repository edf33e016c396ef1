/-
  Commenting drops out.

  `parts_commentOut`: a text that is commented out has the lines of the text, each behind the
  comment mark. `ofTree_gated_pointwise`: with drops or without, a script has the same statements in
  the same places, and only the destructive ones differ, by being commented out.
-/
import Mathlib.Data.List.Forall2
import AlterScript.Proofs.ScriptOrder

namespace AlterScript

namespace Text

/-! ## Lines -/

theorem newline_notMem_of_mem_lineChars {cs l : List Char} (h : l ∈ lineChars cs) : '\n' ∉ l := by
  fun_induction lineChars cs generalizing l with
  | case1 => simp at h
  | case2 r ih =>
    rcases List.mem_cons.1 h with rfl | h
    · simp
    · exact ih h
  | case3 r ih =>
    rcases List.mem_cons.1 h with rfl | h
    · simp
    · exact ih h
  | case4 c r hn hr hlines ih =>
    obtain rfl : l = [c] := by simpa using h
    simpa using fun e : '\n' = c => hn e.symm
  | case5 c r hn hr l' ls hlines ih =>
    rw [hlines] at ih
    rcases List.mem_cons.1 h with rfl | h
    · rw [List.mem_cons, not_or]
      exact ⟨fun e => hn e.symm, ih List.mem_cons_self⟩
    · exact ih (List.mem_cons_of_mem _ h)

theorem lineChars_ne_nil {cs : List Char} (h : cs ≠ []) : lineChars cs ≠ [] := by
  fun_cases lineChars cs with
  | case1 => exact absurd rfl h
  | case2 => simp
  | case3 => simp
  | case4 => simp
  | case5 => simp

theorem parts_cons_self (sep : Char) (r : List Char) :
    parts sep (sep :: r) = [] :: parts sep r := by
  simp [parts]

theorem parts_cons_of_ne {sep c : Char} (h : c ≠ sep) (r : List Char) :
    parts sep (c :: r) = match parts sep r with
      | [] => [[c]]
      | p :: ps => (c :: p) :: ps :=
  if_neg h

theorem exists_parts_cons {sep c : Char} (h : c ≠ sep) (r : List Char) :
    ∃ p ps, parts sep (c :: r) = (c :: p) :: ps := by
  rw [parts_cons_of_ne h]
  cases parts sep r with
  | nil => exact ⟨[], [], rfl⟩
  | cons p ps => exact ⟨p, ps, rfl⟩

theorem parts_of_notMem {sep : Char} {l : List Char} (h : sep ∉ l) : parts sep l = [l] := by
  induction l with
  | nil => rfl
  | cons c r ih =>
    obtain ⟨hc, hr⟩ : sep ≠ c ∧ sep ∉ r := by simpa using h
    rw [parts, if_neg hc.symm, ih hr]

theorem parts_append_cons {sep : Char} {l : List Char} (h : sep ∉ l) (r : List Char) :
    parts sep (l ++ sep :: r) = l :: parts sep r := by
  induction l with
  | nil => simp [parts]
  | cons c l ih =>
    obtain ⟨hc, hl⟩ : sep ≠ c ∧ sep ∉ l := by simpa using h
    rw [List.cons_append, parts, if_neg hc.symm, ih hl]

/-- Joined lines are the parts between the line feeds. -/
theorem parts_join {ls : List String} (hne : ls ≠ []) (h : ∀ l ∈ ls, '\n' ∉ l.toList) :
    parts '\n' (join "\n" ls).toList = ls.map String.toList := by
  induction ls with
  | nil => exact absurd rfl hne
  | cons l ls ih =>
    have hl := h l List.mem_cons_self
    cases ls with
    | nil => simpa using parts_of_notMem hl
    | cons k ls =>
      have := ih (by simp) fun m hm => h m (List.mem_cons_of_mem _ hm)
      rw [join_cons_cons, String.toList_append, String.toList_append, List.append_assoc,
        show "\n".toList = ['\n'] from rfl, List.singleton_append, parts_append_cons hl, this]
      rfl

/-- A text that is commented out has the lines of the text behind the comment mark. -/
theorem parts_commentOut {s : String} (h : s ≠ "") :
    parts '\n' (commentOut s).toList = (lineChars s.toList).map ("-- ".toList ++ ·) := by
  have hne : s.toList ≠ [] := by simpa using h
  rw [commentOut, parts_join]
  · simp [lines, Function.comp_def]
  · simpa [lines] using lineChars_ne_nil hne
  · intro l hl
    obtain ⟨m, hm, rfl⟩ := List.mem_map.1 hl
    obtain ⟨cs, hcs, rfl⟩ := List.mem_map.1 hm
    simpa [String.toList_append] using newline_notMem_of_mem_lineChars hcs

/-- A line without the carriage return at its end. -/
def withoutReturn (l : List Char) : List Char :=
  if l.getLast? = some '\r' then l.dropLast else l

theorem withoutReturn_cons {l : List Char} (h : l ≠ []) (c : Char) :
    withoutReturn (c :: l) = c :: withoutReturn l := by
  obtain ⟨d, r, rfl⟩ := List.exists_cons_of_ne_nil h
  rw [withoutReturn, withoutReturn, List.getLast?_cons_cons, List.dropLast_cons_cons]
  split <;> rfl

/-- With something behind the last line feed, the lines of a text are the parts between its line
    feeds, each without the carriage return that belongs to the line feed. -/
theorem lineChars_eq_map_parts {cs : List Char} (hne : cs ≠ []) (hn : cs.getLast? ≠ some '\n')
    (hr : cs.getLast? ≠ some '\r') : lineChars cs = (parts '\n' cs).map withoutReturn := by
  fun_induction lineChars cs with
  | case1 => exact absurd rfl hne
  | case2 r ih =>
    cases r with
    | nil => exact absurd rfl hn
    | cons d r =>
      rw [List.getLast?_cons_cons] at hn hr
      rw [parts_cons_self, List.map_cons, ih (by simp) hn hr]
      rfl
  | case3 r ih =>
    cases r with
    | nil => exact absurd rfl hn
    | cons d r =>
      rw [List.getLast?_cons_cons, List.getLast?_cons_cons] at hn hr
      rw [parts_cons_of_ne (by decide), parts_cons_self, ih (by simp) hn hr]
      rfl
  | case4 c r hn' _ hlines _ =>
    obtain rfl : r = [] := by
      by_contra h
      exact lineChars_ne_nil h hlines
    have hc : [c].getLast? ≠ some '\r' := hr
    rw [parts_cons_of_ne hn', parts, List.map_singleton, withoutReturn, if_neg hc]
  | case5 c r hn' hr' l ls hlines ih =>
    cases r with
    | nil => simp [lineChars] at hlines
    | cons d r =>
      rw [List.getLast?_cons_cons] at hn hr
      have ih := ih (by simp) hn hr
      rw [hlines] at ih
      rw [parts_cons_of_ne hn']
      by_cases hd : d = '\n'
      · -- The part of `c` ends here, and a carriage return before a line feed is the third case.
        subst hd
        have hc : withoutReturn [c] = [c] := if_neg (by simpa using fun e : c = '\r' => hr' r e rfl)
        rw [parts_cons_self, List.map_cons] at ih
        obtain ⟨hl, hls⟩ := List.cons.inj ih
        rw [parts_cons_self, List.map_cons, hl, hls, hc]
        rfl
      · obtain ⟨p, ps, hp⟩ := exists_parts_cons hd r
        rw [hp, List.map_cons] at ih
        obtain ⟨hl, hls⟩ := List.cons.inj ih
        rw [hp, List.map_cons, withoutReturn_cons (by simp), hl, hls]

end Text

namespace Command

theorem getLast?_append {a b : String} {c : Char} (h : b.toList.getLast? = some c) :
    (a ++ b).toList.getLast? = some c := by
  rw [String.toList_append, List.getLast?_append, h, Option.some_or]

theorem settingText_eq_or_getLast? (object : String) (clauses : List String) :
    settingText object clauses = "" ∨
      (settingText object clauses).toList.getLast? = some ';' := by
  by_cases h : clauses.isEmpty = true
  · exact Or.inl (if_pos h)
  · rw [settingText, if_neg h]
    exact Or.inr (getLast?_append rfl)

/-- A command writes nothing or ends with a semicolon. -/
theorem text_eq_or_getLast? (c : Command) :
    c.text = "" ∨ c.text.toList.getLast? = some ';' := by
  cases c with
  | alterTableOptions t clauses => exact settingText_eq_or_getLast? _ clauses
  | alterViewOptions v clauses => exact settingText_eq_or_getLast? _ clauses
  | createKeyspace k => exact Or.inr (getLast?_append (getLast?_append rfl))
  | alterKeyspace k => exact Or.inr (getLast?_append (getLast?_append rfl))
  | _ => exact Or.inr (getLast?_append rfl)

/-- Only a command that writes nothing is blank. -/
theorem isBlank_statement_iff (c : Command) : c.statement.isBlank = true ↔ c.text = "" := by
  constructor
  · intro h
    refine (text_eq_or_getLast? c).resolve_right fun hlast => ?_
    have hblank : Text.blank ';' = true := List.all_eq_true.1 h _ (List.mem_of_getLast? hlast)
    exact absurd hblank (by decide)
  · intro h
    rw [Statement.isBlank, text_statement, h]
    rfl

/-- The lines of a command's text stand between its line feeds. -/
theorem lineChars_text (c : Command) (hne : c.text ≠ "") :
    Text.lineChars c.text.toList =
      (Text.parts '\n' c.text.toList).map Text.withoutReturn := by
  have hlast := (text_eq_or_getLast? c).resolve_left hne
  apply Text.lineChars_eq_map_parts
  · simpa using hne
  · rw [hlast]
    decide
  · rw [hlast]
    decide

end Command

namespace Statement

theorem text_ne_empty_of_isDestructive {s : Statement} (h : s.isDestructive = true) :
    s.text ≠ "" := by
  intro he
  simp [isDestructive, isBlank, Text.isBlank, he] at h

theorem isDestructive_iff (s : Statement) :
    s.isDestructive = true ↔ s.action = .drop ∧ s.isBlank = false := by
  simp [isDestructive]

/-- What gating makes of a statement: a destructive one takes no effect and has every line behind
    the comment mark, and any other stays as it is. -/
structure GatesTo (s gated : Statement) : Prop where
  active : s.active = true
  inactive_iff : gated.active = false ↔ s.action = .drop ∧ s.isBlank = false
  kept : gated.active = true → gated = s
  commented : gated.active = false →
    gated = { s with active := false, text := Text.commentOut s.text }
  marked : gated.active = false →
    ∀ line ∈ Text.parts '\n' gated.text.toList, "-- ".toList <+: line
  unmarked : gated.active = false →
    (Text.parts '\n' gated.text.toList).map (List.drop 3) = Text.lineChars s.text.toList
  lines : gated.active = false →
    Text.lineChars s.text.toList = (Text.parts '\n' s.text.toList).map Text.withoutReturn

theorem gatesTo_command (c : Command) :
    GatesTo c.statement
      (if c.statement.isDestructive then c.statement.commentedOut else c.statement) := by
  by_cases h : c.statement.isDestructive = true
  · have hne : c.text ≠ "" := text_ne_empty_of_isDestructive h
    have hparts : Text.parts '\n' (Text.commentOut c.text).toList =
        (Text.lineChars c.text.toList).map ("-- ".toList ++ ·) := Text.parts_commentOut hne
    rw [if_pos h]
    refine ⟨rfl, ⟨fun _ => (isDestructive_iff _).1 h, fun _ => rfl⟩, ?_, fun _ => rfl, ?_, ?_, ?_⟩
    · intro ha
      exact absurd ha Bool.false_ne_true
    · intro _ line hline
      have hline : line ∈ Text.parts '\n' (Text.commentOut c.text).toList := hline
      rw [hparts] at hline
      obtain ⟨l, _, rfl⟩ := List.mem_map.1 hline
      exact List.prefix_append _ l
    · intro _
      have hdrop : ∀ l : List Char, List.drop 3 ("-- ".toList ++ l) = l := fun l => rfl
      show (Text.parts '\n' (Text.commentOut c.text).toList).map (List.drop 3) = _
      rw [hparts, List.map_map]
      simp only [Function.comp_def, hdrop, List.map_id']
      rfl
    · intro _
      exact c.lineChars_text hne
  · rw [if_neg h]
    have hactive : ¬ c.statement.active = false := by simp
    refine ⟨rfl, ⟨fun ha => absurd ha hactive, fun hd => ?_⟩, fun _ => rfl, ?_, ?_, ?_, ?_⟩
    · exact absurd ((isDestructive_iff _).2 hd) h
    all_goals exact fun ha => absurd ha hactive

end Statement

namespace Script

/-- Whether drops are applied decides nothing but what is commented out: both runs fail alike, or
    give the same statements in the same places, of which the destructive ones are gated. -/
theorem ofTree_gated_pointwise (resolver : Resolver) (references : References) (mode : Mode)
    (root : Json) :
    (∃ e, ofTree resolver references { mode with applyDrops := true } root = .error e ∧
      ofTree resolver references { mode with applyDrops := false } root = .error e) ∨
    ∃ applied gated,
      ofTree resolver references { mode with applyDrops := true } root = .ok applied ∧
      ofTree resolver references { mode with applyDrops := false } root = .ok gated ∧
      List.Forall₂ Statement.GatesTo applied gated := by
  cases h : generated resolver references mode root with
  | error e =>
    refine Or.inl ⟨e, ?_, ?_⟩
    · rw [ofTree, generated_applyDrops, h]
      rfl
    · rw [ofTree, generated_applyDrops, h]
      rfl
  | ok raw =>
    refine Or.inr ⟨ofStatements true raw, gate false (ofStatements true raw), ?_, ?_, ?_⟩
    · rw [ofTree, generated_applyDrops, h]
      rfl
    · rw [ofTree, generated_applyDrops, h, ← ofStatements_eq_gate]
      rfl
    · show List.Forall₂ _ _ ((ofStatements true raw).map _)
      rw [List.forall₂_map_right_iff, List.forall₂_same]
      intro s hs
      have hraw : s ∈ raw := by simpa [ofStatements] using hs
      obtain ⟨c, rfl⟩ := exists_command_of_mem_generated h hraw
      exact Statement.gatesTo_command c

end Script

end AlterScript
