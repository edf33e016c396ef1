/-
  References to the types that a tree declares.

  A type is known under several texts (`UserType.aliases`), and of all types of the tree that are
  known under one the last counts (`References.find?_ofTree`). `Script.references_resolve`: where no
  two types of a tree share a text, every text of a new type stands for the type under the name
  under which it is created, whatever references come from outside.
-/
import AlterScript.Proofs.Restoration
import AlterScript.Proofs.Trimming
import AlterScript.Proofs.TypeOrder
import AlterScript.Proofs.UnchangedTree
import Mathlib.Data.List.Pairwise

namespace AlterScript

/-! ## Labels -/

namespace Json

/-- A number that is laid out with digits has a mark of its own in it. -/
theorem exists_mem_layOut (digits : List Char) (e : Int) :
    ∃ c ∈ Binary64.layOut digits e, Text.blank c = false := by
  rw [Binary64.layOut]
  split
  · exact ⟨'e', by simp, by decide⟩
  · split
    · exact ⟨'0', by simp, by decide⟩
    · exact ⟨'.', by simp, by decide⟩

theorem isBlank_text (n : Number) : Text.isBlank n.text = false := by
  cases n with
  | int i => exact Text.isBlank_toString_int i
  | float x =>
    have hbody : ∃ c ∈ (if x.mantissa = 0 then ['0', '.', '0']
        else Binary64.layOut (Nat.toDigits 10 x.shortest.1)
          (x.shortest.2 + (Nat.toDigits 10 x.shortest.1).length - 1)), Text.blank c = false := by
      split
      · exact ⟨'0', .head _, by decide⟩
      · exact exists_mem_layOut _ _
    obtain ⟨c, hc, hblank⟩ := hbody
    refine Text.isBlank_eq_false_iff.2 ⟨c, ?_, hblank⟩
    rw [Number.text, Binary64.text, String.toList_ofList]
    split
    · exact .tail _ hc
    · exact hc

/-- A label is never blank. -/
theorem nonBlank_of_label? {j : Option Json} {s : String} (h : label? j = some s) :
    Text.nonBlank s = some s := by
  have hblank : Text.isBlank s = false := by
    match j, h with
    | some (.str t), h =>
      have h : Text.nonBlank t = some s := h
      rw [Text.nonBlank] at h
      split at h
      · cases h
      · obtain rfl := Option.some.inj h
        simpa using ‹¬ Text.isBlank t = true›
    | some (.num n), h =>
      obtain rfl := Option.some.inj h
      exact isBlank_text n
  rw [Text.nonBlank, if_neg (by simp [hblank])]

end Json

/-! ## Texts that refer to a type -/

namespace UserType

/-- The texts that refer to a type. -/
def aliases (c : Child UserType) : List String :=
  ["#/definitions/" ++ c.key, "#model/definitions/" ++ c.key] ++ c.node.guid.toList ++ [c.key]

/-- The node was read. -/
def Read (c : Child UserType) : Prop := ∃ j, ofJson? j = some c.node

theorem label_of_read {c : Child UserType} (h : Read c) :
    (c.node.code <|> c.node.name).getD c.key = label c.key c.node := by
  obtain ⟨j, hj⟩ := h
  have hlabel : ∀ {n}, (c.node.code <|> c.node.name) = some n → Text.nonBlank n = some n := by
    intro n hn
    rw [ofJson?] at hj
    obtain ⟨es, -, hj⟩ := Option.bind_eq_some_iff.1 hj
    obtain ⟨properties, -, hj⟩ := Option.bind_eq_some_iff.1 hj
    obtain ⟨comparison, -, hj⟩ := Option.bind_eq_some_iff.1 hj
    rw [← Option.some.inj hj] at hn
    rcases (Option.orElse_eq_some _ _ _).1 hn with hcode | ⟨-, hname⟩
    · exact Json.nonBlank_of_label? hcode
    · exact Json.nonBlank_of_label? hname
  rw [label]
  cases hn : (c.node.code <|> c.node.name) with
  | none => rfl
  | some n => rw [Option.bind_some, hlabel hn]

theorem ofChild_eq_map_aliases {c : Child UserType} (h : Read c) :
    References.ofChild c = (aliases c).map fun r => (r, label c.key c.node) := by
  rw [References.ofChild, aliases, label_of_read h]
  cases c.node.guid <;> rfl

end UserType

/-! ## The last entry counts -/

namespace Entries

variable {α : Type}

/-- Of entries that are written one after the other the last one with a name counts. -/
theorem find?_putAll_eq_last (key : String) (entries : Entries α) (more : List (String × α)) :
    find? key (putAll entries more) =
      ((more.reverse.find? (·.1 = key)).map Prod.snd <|> find? key entries) := by
  induction more generalizing entries with
  | nil => rfl
  | cons e r ih =>
    have hput : putAll entries (e :: r) = putAll (put e.1 e.2 entries) r := rfl
    rw [hput, ih, find?_put, List.reverse_cons, List.find?_append]
    cases hlater : r.reverse.find? (·.1 = key) with
    | some later => rfl
    | none => by_cases hk : e.1 = key <;> simp [hk]

end Entries

namespace References

/-- The last type of a tree that is known under a text. -/
def lastDeclaring (t : ChangeTree) (r : String) : Option (Child UserType) :=
  (declared t).reverse.find? (r ∈ UserType.aliases ·)

/-- No text refers to two types of a tree. -/
def DistinctAliases (t : ChangeTree) : Prop :=
  (declared t).Pairwise fun a b => ∀ r ∈ UserType.aliases a, r ∉ UserType.aliases b

instance (t : ChangeTree) : Decidable (DistinctAliases t) :=
  inferInstanceAs (Decidable (List.Pairwise _ _))

variable {t : ChangeTree}

theorem read_of_mem_declared {c : Child UserType} (h : c ∈ declared t) : UserType.Read c := by
  obtain ⟨b, _, hc⟩ := List.mem_flatMap.1 h
  obtain ⟨w, _, j, _, hread⟩ := (ChangeTree.mem_children_iff _ t _ b c).1 hc
  exact ⟨j, hread⟩

/-- All references to a type give it one name, so that their order does not count. -/
theorem find?_reverse_ofChild {c : Child UserType} (h : UserType.Read c) (r : String) :
    ((ofChild c).reverse.find? (·.1 = r)).map Prod.snd =
      if r ∈ UserType.aliases c then some (UserType.label c.key c.node) else none := by
  rw [UserType.ofChild_eq_map_aliases h, ← List.map_reverse, List.find?_map, Option.map_map]
  cases hfind : (UserType.aliases c).reverse.find? _ with
  | some text =>
    have htext : text = r := by simpa using List.find?_some hfind
    have hmem : text ∈ UserType.aliases c := List.mem_reverse.1 (List.mem_of_find?_eq_some hfind)
    rw [if_pos (htext ▸ hmem)]
    rfl
  | none =>
    have hnone := List.find?_eq_none.1 hfind
    rw [if_neg fun hr => hnone r (List.mem_reverse.2 hr) (decide_eq_true rfl)]
    rfl

theorem find?_reverse_flatMap_ofChild {cs : List (Child UserType)} (h : ∀ c ∈ cs, UserType.Read c)
    (r : String) :
    ((cs.flatMap ofChild).reverse.find? (·.1 = r)).map Prod.snd =
      (cs.reverse.find? (r ∈ UserType.aliases ·)).map fun c => UserType.label c.key c.node := by
  induction cs with
  | nil => rfl
  | cons c cs ih =>
    rw [List.flatMap_cons, List.reverse_append, List.find?_append, Option.map_or,
      find?_reverse_ofChild (h c (.head _)), ih fun c hc => h c (.tail _ hc), List.reverse_cons,
      List.find?_append, Option.map_or]
    by_cases hr : r ∈ UserType.aliases c <;> simp [hr]

/-- A tree gives a text the name of the last type that is known under it. -/
theorem find?_ofTree (t : ChangeTree) (r : String) :
    (ofTree t).find? r = (lastDeclaring t r).map fun c => UserType.label c.key c.node := by
  have hlast := Entries.find?_putAll_eq_last r [] ((declared t).flatMap ofChild)
  rw [find?_reverse_flatMap_ofChild (fun c hc => read_of_mem_declared hc)] at hlast
  rw [Entries.find?_nil, Option.orElse_eq_orElse, Option.orElse_eq_or, Option.or_none] at hlast
  exact hlast

theorem lastDeclaring_eq_some_of_distinctAliases (h : DistinctAliases t) {c : Child UserType}
    (hc : c ∈ declared t) {r : String} (hr : r ∈ UserType.aliases c) :
    lastDeclaring t r = some c := by
  obtain ⟨b, hb⟩ : ∃ b, lastDeclaring t r = some b := by
    rw [← Option.isSome_iff_exists, lastDeclaring, List.find?_isSome]
    exact ⟨c, List.mem_reverse.2 hc, decide_eq_true hr⟩
  have hdeclared : b ∈ declared t := List.mem_reverse.1 (List.mem_of_find?_eq_some hb)
  have halias : r ∈ UserType.aliases b := by simpa using List.find?_some hb
  by_cases hne : b = c
  · rw [hb, hne]
  · have : Std.Symm fun a b => ∀ r ∈ UserType.aliases a, r ∉ UserType.aliases b :=
      ⟨fun _ _ hdisjoint r hr hr' => hdisjoint r hr' hr⟩
    exact absurd hr (h.forall hdeclared hc hne r halias)

end References

/-! ## New types -/

theorem Scope.typeOf_of_reference {s : Scope} (hs : s.resolver = Resolver.builtin) {f : Field}
    {r n : String} (href : f.reference = some r) (hn : s.references.find? r = some n)
    (fallback : String) :
    Resolver.builtin s.references f fallback = .ok (some ("frozen<" ++ n ++ ">")) ∧
      s.typeOf f fallback = .ok (some ("frozen<" ++ n ++ ">")) := by
  have hbuiltin :
      Resolver.builtin s.references f fallback = .ok (some ("frozen<" ++ n ++ ">")) := by
    rw [Resolver.builtin, CqlType.ofField_of_reference href, hn]
    rfl
  refine ⟨hbuiltin, ?_⟩
  rw [typeOf, hs, Resolver.columnType, hbuiltin]
  rfl

/-- A type with a typed field is created by one statement, under its label. -/
theorem UserType.commands_create_cases {s : Scope} {c : Child UserType} {own : List Command}
    (h : c.node.commands s .create c.key = .ok own) :
    (own = [] ∧ ¬ c.node.HasTypedField s) ∨
      ∃ fields, own = [.createType ⟨c.node.target (label c.key c.node), fields⟩] := by
  have hcreate : c.node.create s (c.node.target (label c.key c.node)) = .ok own := h
  simp only [create, bind_eq_ok_iff, pure_eq_ok_iff] at hcreate
  obtain ⟨fields, hfields, rfl⟩ := hcreate
  rw [← columns_ne_nil_iff hfields]
  cases fields with
  | nil => exact .inl ⟨rfl, not_not_intro rfl⟩
  | cons column fields => exact .inr ⟨column :: fields, rfl⟩

namespace Script

theorem mem_declared_of_mem_newTypes {t : ChangeTree} {c : Child UserType} (h : c ∈ newTypes t) :
    c ∈ References.declared t := by
  obtain ⟨w, hw, j, hj, hread⟩ := ChangeTree.exists_of_mem_firstChildren h
  exact List.mem_flatMap.2 ⟨.added, .head _,
    (ChangeTree.mem_children_iff _ t _ _ c).2 ⟨w, hw, j, hj, hread⟩⟩

/-- A text stands for the last type of the tree that is known under it, and else for what the
    references from outside say. If no text refers to two types, each text of a new type stands for
    it, frozen, under the very name under which the script creates it. -/
theorem references_resolve (references : References) (mode : Mode) {root : Json} {t : ChangeTree}
    (ht : ChangeTree.ofJson root = .ok t) :
    (∀ r, (scope Resolver.builtin references mode.legacy t).references.find? r =
      ((References.lastDeclaring t r).map (fun c => UserType.label c.key c.node) <|>
        references.find? r)) ∧
    (References.DistinctAliases t →
      ∃ final, ofTree Resolver.builtin references mode root = .ok final ∧
        ∀ c ∈ newTypes t,
          (∀ r ∈ UserType.aliases c, ∀ f : Field, f.reference = some r → ∀ fallback,
            Resolver.builtin (scope Resolver.builtin references mode.legacy t).references f
                fallback = .ok (some ("frozen<" ++ UserType.label c.key c.node ++ ">")) ∧
              (scope Resolver.builtin references mode.legacy t).typeOf f fallback =
                .ok (some ("frozen<" ++ UserType.label c.key c.node ++ ">"))) ∧
          ∃ own,
            c.node.commands (scope Resolver.builtin references mode.legacy t) .create c.key =
              .ok own ∧
            ((own = [] ∧
                ¬ c.node.HasTypedField (scope Resolver.builtin references mode.legacy t)) ∨
              ∃ fields,
                own = [.createType ⟨c.node.target (UserType.label c.key c.node), fields⟩]) ∧
            ∀ x ∈ own, x.statement ∈ final) := by
  have hfind : ∀ r, (scope Resolver.builtin references mode.legacy t).references.find? r =
      ((References.lastDeclaring t r).map (fun c => UserType.label c.key c.node) <|>
        references.find? r) := by
    intro r
    rw [← References.find?_ofTree]
    exact References.find?_merge _ _ (Entries.keys_nodup_ofList _) r
  refine ⟨hfind, fun hdistinct => ?_⟩
  obtain ⟨final, hfinal⟩ := exists_ofTree_eq_ok Resolver.answers_builtin references mode ht
  obtain ⟨cs, hcs, rfl⟩ := (ofTree_eq_ok_iff_of_ofJson ht).1 hfinal
  refine ⟨_, hfinal, fun c hc => ⟨fun r hr f href fallback => ?_, ?_⟩⟩
  · have hlast := References.lastDeclaring_eq_some_of_distinctAliases hdistinct
      (mem_declared_of_mem_newTypes hc) hr
    refine Scope.typeOf_of_reference rfl href ?_ fallback
    rw [hfind, hlast]
    rfl
  · have hnode : c ∈ typeNodes t .added := (Dependency.perm_sorted UserType.uses _).mem_iff.2 hc
    obtain ⟨own, hown⟩ := exists_type_commands hcs hnode
    have hown : c.node.commands (scope Resolver.builtin references mode.legacy t) .create c.key =
        .ok own := hown
    have hcases := UserType.commands_create_cases hown
    refine ⟨own, hown, hcases, fun x hx => ?_⟩
    refine (mem_ofStatements_iff _ _ _).2 ⟨_, List.mem_map_of_mem ?_, if_neg ?_⟩
    · exact (mem_commands_iff hcs).2 (.inr (.inr (.inr ⟨.added, c, hnode, own, hown, hx⟩)))
    · rcases hcases with ⟨rfl, _⟩ | ⟨fields, rfl⟩
      · exact absurd hx List.not_mem_nil
      · obtain rfl := List.mem_singleton.1 hx
        simp [Statement.isDestructive, Command.action]

/-- References from outside: the id of a new type stands for another one. -/
def outerReferences : References := ⟨[("g-address", "other"), ("#/definitions/house", "house")]⟩

/-- The id stands for the type that is created, and what the tree does not declare is kept. -/
theorem references_resolve_of_homeTypes :
    (scope Resolver.builtin outerReferences false (homeTree "g-address")).references.find?
        "#/definitions/house" = some "house" ∧
    References.DistinctAliases (homeTree "g-address") ∧
    ∃ final, ofTree Resolver.builtin outerReferences {} (homeTypes "g-address") = .ok final ∧
      addressCreation.statement ∈ final ∧
      Resolver.builtin
          (scope Resolver.builtin outerReferences false (homeTree "g-address")).references
          { reference := some "g-address" } "home" = .ok (some "frozen<address>") := by
  have ht : ChangeTree.ofJson (homeTypes "g-address") = .ok (homeTree "g-address") := rfl
  have hdistinct : References.DistinctAliases (homeTree "g-address") := by decide
  obtain ⟨hfind, hall⟩ := references_resolve outerReferences {} ht
  obtain ⟨final, hfinal, hnew⟩ := hall hdistinct
  obtain ⟨hresolve, own, hown, _, hmem⟩ := hnew addressNode (.tail _ (.head _))
  refine ⟨hfind _, hdistinct, final, hfinal, hmem addressCreation ?_, ?_⟩
  · obtain rfl := Except.ok.inj hown
    exact .head _
  · exact (hresolve "g-address" (by decide) _ rfl "home").1

end Script

end AlterScript
