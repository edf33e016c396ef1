/-
  The order in which new types are created.

  `Script.creations_in_order`: a new type is created behind another one that it names, if the order
  of types sees the name and nothing is seen in a circle. It sees every reference to a type but the
  one by its id, and a hint of a child type, but not of a mode. `Script.creations_of_homeTypes` is a
  type that is created before the one that it has a field of.
-/
import AlterScript.Proofs.Answers
import AlterScript.Proofs.DependencyOrder
import AlterScript.Proofs.Levels
import AlterScript.Proofs.ScriptOrder
import AlterScript.Proofs.TypeNames

namespace AlterScript

/-! ## Names that are seen -/

/-- What stands behind a slash, or behind nothing, is the last segment. -/
theorem Text.lastSegment_append (before : String) {s : String}
    (hbefore : before.toList.getLast?.all (· == '/') = true) (hs : s ≠ "")
    (hslash : '/' ∉ s.toList) : lastSegment (before ++ s) = some s := by
  have hsegment : ∀ c ∈ s.toList.reverse, decide (c ≠ '/') = true := fun c hc =>
    decide_eq_true fun heq => hslash (heq ▸ List.mem_reverse.1 hc)
  have hstop : before.toList.reverse.takeWhile (· ≠ '/') = [] := by
    cases h : before.toList.reverse with
    | nil => rfl
    | cons c r =>
      have hlast : before.toList.getLast? = some c := by
        rw [← List.head?_reverse, h]
        rfl
      rw [hlast, Option.all_some, beq_iff_eq] at hbefore
      simp [hbefore]
  have hwhile : (before ++ s).toList.reverse.takeWhile (· ≠ '/') = s.toList.reverse := by
    rw [String.toList_append, List.reverse_append, List.takeWhile_append_of_pos hsegment, hstop,
      List.append_nil]
  rw [lastSegment, hwhile]
  simp [hs]

/-- Every reference to a type but the one by its id is seen. -/
theorem TypeName.sees_of_reference {c : Child UserType} {r n : String}
    (h : (r, n) ∈ References.ofChild c) (hguid : c.node.guid ≠ some r) (hkey : c.key ≠ "")
    (hslash : '/' ∉ c.key.toList) : (TypeName.reference r).Sees c := by
  refine Or.inl ?_
  have hid : (r, n) ∉ (c.node.guid.map fun g =>
      (g, (c.node.code <|> c.node.name).getD c.key)).toList := by
    intro hid
    obtain ⟨g, hg, heq⟩ := Option.map_eq_some_iff.1 (Option.mem_toList.1 hid)
    exact hguid ((Prod.mk.inj heq).1 ▸ hg)
  simp only [References.ofChild, List.mem_append, List.mem_cons, List.not_mem_nil, or_false, hid,
    Prod.mk.injEq] at h
  rcases h with (⟨rfl, _⟩ | ⟨rfl, _⟩) | ⟨rfl, _⟩
  · exact Text.lastSegment_append "#/definitions/" rfl hkey hslash
  · exact Text.lastSegment_append "#model/definitions/" rfl hkey hslash
  · have hself := Text.lastSegment_append "" rfl hkey hslash
    rwa [String.empty_append] at hself

theorem UserType.uses_of_sees {a b : Child UserType} {refs : References} {e : String × Field}
    {x : TypeName} (he : e ∈ a.node.fields) (hx : e.2.Draws refs e.1 x) (h : x.Sees b) :
    UserType.uses a b = true := by
  have hmentions : ∀ m, x.mention = some m → a.node.mentions.contains m = true := fun m hm =>
    List.contains_iff_mem.2 (List.mem_flatMap.2 ⟨e, he, hx.mem_mentions hm⟩)
  rw [UserType.uses, Bool.or_eq_true]
  exact h.imp (hmentions _) (hmentions _)

/-- The type of a field has the types in it that it is drawn from. -/
theorem Scope.within_of_typeOf {s : Scope} (hs : s.resolver = Resolver.builtin)
    {f : Field} {name n type : String} {x : TypeName} (hx : f.Draws s.references name x)
    (hn : x.resolve s.references = some n) (h : s.typeOf f name = .ok (some type)) :
    Text.Within ("frozen<" ++ n ++ ">") type := by
  rw [typeOf, hs, Resolver.columnType] at h
  have h : (((CqlType.ofField s.references name f).map CqlType.text) <|>
      f.reference.bind Text.lastSegment) = some type := Except.ok.inj h
  cases htype : CqlType.ofField s.references name f with
  | some t =>
    rw [htype] at h
    obtain rfl := Option.some.inj h
    exact hx.within hn htype
  | none =>
    -- Without a type of its own the field has a reference, and this one is known.
    obtain ⟨r, href, _⟩ : ∃ r, f.reference = some r ∧ Text.lastSegment r = some type := by
      rw [htype] at h
      exact Option.bind_eq_some_iff.1 h
    cases hx with
    | reference href' =>
      rw [CqlType.ofField_of_reference href', show s.references.find? _ = some n from hn] at htype
      cases htype
    | childType hnone => cases hnone.symm.trans href
    | mode hnone => cases hnone.symm.trans href
    | item hnone => cases hnone.symm.trans href
    | member hnone => cases hnone.symm.trans href

namespace Script

/-! ## Statements in order -/

/-- Of two statements of one slot, none of them a drop, the one that is generated first stands
    first in the script. -/
theorem sublist_ofStatements {first rest : List Statement} {x y : Statement} (hx : x ∈ first)
    (hy : y ∈ rest) (hnot : y ∉ first) (hslot : slot x = slot y) (hkept : x.action ≠ .drop)
    (applyDrops : Bool) : [x, y].Sublist (ofStatements applyDrops (first ++ rest)) := by
  have hne : x ≠ y := by
    rintro rfl
    exact hnot hx
  refine (sublist_ofStatements_iff hne hslot hkept applyDrops).2
    ⟨List.mem_append_left rest hx, List.mem_append_right first hy, ?_⟩
  rw [List.idxOf_append_of_mem hx, List.idxOf_append_of_notMem hnot]
  exact Nat.lt_add_right _ (List.idxOf_lt_length_iff.2 hx)

/-! ## New types -/

theorem ofEach_append_eq_ok_iff {α : Type} {f : α → Except ResolveError (List Command)}
    {xs ys : List α} {cs : List Command} :
    ofEach f (xs ++ ys) = .ok cs ↔
      ∃ first rest, ofEach f xs = .ok first ∧ ofEach f ys = .ok rest ∧ first ++ rest = cs := by
  induction xs generalizing cs with
  | nil => simp [ofEach]
  | cons x xs ih =>
    simp only [List.cons_append, ofEach_cons_eq_ok_iff, ih]
    constructor
    · rintro ⟨one, _, hone, ⟨first, rest, hfirst, hrest, rfl⟩, rfl⟩
      exact ⟨_, rest, ⟨one, first, hone, hfirst, rfl⟩, hrest, by simp⟩
    · rintro ⟨_, rest, ⟨one, first, hone, hfirst, rfl⟩, hrest, rfl⟩
      exact ⟨one, _, hone, ⟨first, rest, hfirst, hrest, rfl⟩, by simp⟩

end Script

/-- A new type is created by this statement. -/
def UserType.Creates (s : Scope) (c : Child UserType) (st : Statement) : Prop :=
  ∃ d, c.node.commands s .create c.key = .ok [.createType d] ∧ (Command.createType d).statement = st

theorem UserType.mem_statements_iff {s : Scope} {c : Child UserType} {ys : List Command}
    (h : c.node.commands s .create c.key = .ok ys) {st : Statement} :
    st ∈ ys.map Command.statement ↔ UserType.Creates s c st := by
  have hcreate : c.node.create s (c.node.target (c.node.label c.key)) = .ok ys := h
  simp only [create, bind_eq_ok_iff, pure_eq_ok_iff] at hcreate
  obtain ⟨fields, _, rfl⟩ := hcreate
  rw [Creates, h]
  cases fields with
  | nil => simp
  | cons column fields => simp [eq_comm]

namespace Script

variable {s : Scope} {t : ChangeTree} {skipKeyspaces : Bool} {cs : List Command}

/-- The new types of a tree, as they stand there. -/
def newTypes (t : ChangeTree) : List (Child UserType) :=
  t.firstChildren UserType.ofJson? .userTypes .added

/-- The commands that create new types stand behind commands for other objects only. -/
theorem exists_creations (h : commands s skipKeyspaces t = .ok cs) :
    ∃ before added after,
      ofEach (fun c => c.node.commands s .create c.key) (typeNodes t .added) = .ok added ∧
      before ++ (added ++ after) = cs ∧ ∀ c ∈ before, c.level ≠ .userType := by
  simp only [commands, bind_eq_ok_iff, pure_eq_ok_iff] at h
  obtain ⟨ts, hts, us, hus, rfl⟩ := h
  obtain ⟨added, after, hadded, _, rfl⟩ := ofEach_cons_eq_ok_iff.1 hus
  refine ⟨_, added, after, hadded, rfl, fun c hc => ?_⟩
  rcases List.mem_append.1 hc with hc | hc
  · rcases List.mem_append.1 hc with hc | hc
    · obtain ⟨b, _, xs, hxs, hc⟩ := (mem_ofEach_iff hts c).1 hc
      obtain ⟨n, _, ys, hys, hc⟩ := (mem_ofEach_iff hxs c).1 hc
      have hlevel := Table.level_of_mem_commands hys hc
      intro heq
      simp [heq] at hlevel
    · cases skipKeyspaces with
      | true => cases hc
      | false =>
        obtain ⟨b, _, hc⟩ := List.mem_flatMap.1 hc
        obtain ⟨n, _, hc⟩ := List.mem_flatMap.1 hc
        simp [Keyspace.level_of_mem_commands hc]
  · obtain ⟨b, _, hc⟩ := List.mem_flatMap.1 hc
    obtain ⟨n, _, hc⟩ := List.mem_flatMap.1 hc
    simp [View.level_of_mem_commands hc]

theorem mem_statements_of_mem {nodes : List (Child UserType)} {ys : List Command}
    (h : ofEach (fun c => c.node.commands s .create c.key) nodes = .ok ys) {st : Statement} :
    st ∈ ys.map Command.statement ↔ ∃ c ∈ nodes, UserType.Creates s c st := by
  rw [List.mem_map]
  constructor
  · rintro ⟨x, hx, rfl⟩
    obtain ⟨c, hc, zs, hzs, hx⟩ := (mem_ofEach_iff h x).1 hx
    exact ⟨c, hc, (UserType.mem_statements_iff hzs).1 (List.mem_map_of_mem hx)⟩
  · rintro ⟨c, hc, hcreates⟩
    obtain ⟨zs, hzs⟩ := exists_of_mem_of_ofEach h hc
    obtain ⟨x, hx, hst⟩ := List.mem_map.1 ((UserType.mem_statements_iff hzs).2 hcreates)
    exact ⟨x, (mem_ofEach_iff h x).2 ⟨c, hc, zs, hzs, hx⟩, hst⟩

/-- Types are created in the order of their nodes. -/
theorem sublist_of_typeNodes (hcs : commands s skipKeyspaces t = .ok cs)
    {front rest : List (Child UserType)} (hnodes : typeNodes t .added = front ++ rest)
    {a b : Child UserType} (ha : a ∈ front) (hb : b ∈ rest) {sa sb : Statement}
    (hsa : UserType.Creates s a sa) (hsb : UserType.Creates s b sb)
    (hfirst : ∀ c ∈ front, ¬ UserType.Creates s c sb) (applyDrops : Bool) :
    [sa, sb].Sublist (ofStatements applyDrops (cs.map Command.statement)) := by
  obtain ⟨before, added, after, hadded, rfl, hbefore⟩ := exists_creations hcs
  rw [hnodes] at hadded
  obtain ⟨first, last, hfront, hrest, rfl⟩ := ofEach_append_eq_ok_iff.1 hadded
  have hraw : (before ++ (first ++ last ++ after)).map Command.statement =
      (before ++ first).map Command.statement ++ (last ++ after).map Command.statement := by
    simp only [List.map_append, List.append_assoc]
  have hmade : ∀ {c st}, UserType.Creates s c st → slot st = (.userType, .add) := by
    rintro c st ⟨d, _, rfl⟩
    rfl
  rw [hraw]
  refine sublist_ofStatements ?_ ?_ ?_ ((hmade hsa).trans (hmade hsb).symm) ?_ applyDrops
  · rw [List.map_append]
    exact List.mem_append_right _ ((mem_statements_of_mem hfront).2 ⟨a, ha, hsa⟩)
  · rw [List.map_append]
    exact List.mem_append_left _ ((mem_statements_of_mem hrest).2 ⟨b, hb, hsb⟩)
  · rw [List.map_append, List.mem_append, mem_statements_of_mem hfront]
    rintro (hother | ⟨c, hc, hcreates⟩)
    · obtain ⟨c, hc, rfl⟩ := List.mem_map.1 hother
      exact hbefore c hc (congrArg Prod.fst (hmade hsb))
    · exact hfirst c hc hcreates
  · rw [show sa.action = .add from congrArg Prod.snd (hmade hsa)]
    decide

/-- A type is created behind one that it is seen to use, if nothing is seen in a circle. -/
theorem sublist_of_uses (hcs : commands s skipKeyspaces t = .ok cs)
    (hacyclic : Dependency.Acyclic UserType.uses (newTypes t)) {a b : Child UserType}
    (ha : a ∈ newTypes t) (hb : b ∈ newTypes t) (hne : b ≠ a) (huses : UserType.uses a b = true)
    {sa sb : Statement} (hsa : UserType.Creates s a sa) (hsb : UserType.Creates s b sb)
    (hsingle : ∀ c ∈ newTypes t, UserType.Creates s c sa → c = a) (applyDrops : Bool) :
    [sb, sa].Sublist (ofStatements applyDrops (cs.map Command.statement)) := by
  have hmem : ∀ {c}, c ∈ typeNodes t .added ↔ c ∈ newTypes t :=
    (Dependency.perm_sorted UserType.uses _).mem_iff
  have hpairwise : (typeNodes t .added).Pairwise fun c d => UserType.uses c d = false :=
    hacyclic.pairwise_sorted
  -- `b` stands in front of the first place of `a`, as `a` uses nothing that is placed later.
  obtain ⟨front, rest, hnodes, hnot⟩ := List.eq_append_cons_of_mem (hmem.2 ha)
  have hfront : b ∈ front := by
    have hb := hmem.2 hb
    rw [hnodes, List.mem_append, List.mem_cons] at hb
    refine hb.resolve_right fun hb => ?_
    rw [hnodes, List.pairwise_append, List.pairwise_cons] at hpairwise
    have hnone := hpairwise.2.1.1 b (hb.resolve_left hne)
    rw [huses] at hnone
    cases hnone
  refine sublist_of_typeNodes hcs hnodes hfront List.mem_cons_self hsb hsa ?_ applyDrops
  intro c hc hcreates
  have hc' : c ∈ typeNodes t .added := hnodes ▸ List.mem_append_left _ hc
  exact hnot (hsingle c (hmem.1 hc') hcreates ▸ hc)

/-- Types of which none is seen to use a later one are created as they stand in the tree. -/
theorem sublist_of_kept (hcs : commands s skipKeyspaces t = .ok cs)
    {front rest : List (Child UserType)} (hnodes : newTypes t = front ++ rest)
    (hkept : (newTypes t).Pairwise fun c d => UserType.uses c d = false) {a b : Child UserType}
    (ha : a ∈ front) (hb : b ∈ rest) {sa sb : Statement} (hsa : UserType.Creates s a sa)
    (hsb : UserType.Creates s b sb) (hfirst : ∀ c ∈ front, ¬ UserType.Creates s c sb)
    (applyDrops : Bool) :
    [sa, sb].Sublist (ofStatements applyDrops (cs.map Command.statement)) := by
  have hsame : typeNodes t .added = front ++ rest :=
    (Dependency.sorted_eq_self hkept).trans hnodes
  exact sublist_of_typeNodes hcs hsame ha hb hsa hsb hfirst applyDrops

/-- Whether a new type that has another one in a field is created behind it. It is, if the order of
    types sees the name that the field uses, and nothing is seen in a circle; every reference but the
    one by the id is seen. If no type is seen to use a later one, the types are created as they stand
    in the tree, whatever their fields are. -/
theorem creations_in_order (references : References) (mode : Mode) {root : Json} {t : ChangeTree}
    (ht : ChangeTree.ofJson root = .ok t) {a b : Child UserType} (ha : a ∈ newTypes t)
    (hb : b ∈ newTypes t) {sa sb : Statement}
    (hsa : UserType.Creates (scope Resolver.builtin references mode.legacy t) a sa)
    (hsb : UserType.Creates (scope Resolver.builtin references mode.legacy t) b sb)
    {e : String × Field} (he : e ∈ a.node.fields) {x : TypeName} {n : String}
    (hx : e.2.Draws (references.merge (References.ofTree t)) e.1 x)
    (hn : x.resolve (references.merge (References.ofTree t)) = some n) :
    ∃ final, ofTree Resolver.builtin references mode root = .ok final ∧
      (∀ type, (scope Resolver.builtin references mode.legacy t).typeOf e.2 e.1 = .ok (some type) →
        Text.Within ("frozen<" ++ n ++ ">") type) ∧
      (x.Sees b → b ≠ a → Dependency.Acyclic UserType.uses (newTypes t) →
        (∀ c ∈ newTypes t,
          UserType.Creates (scope Resolver.builtin references mode.legacy t) c sa → c = a) →
        [sb, sa].Sublist final) ∧
      (∀ r, x = .reference r → (r, n) ∈ References.ofChild b → b.node.guid ≠ some r →
        b.key ≠ "" → '/' ∉ b.key.toList → x.Sees b) ∧
      ∀ front rest, newTypes t = front ++ rest →
        ((newTypes t).Pairwise fun c d => UserType.uses c d = false) → a ∈ front → b ∈ rest →
        (∀ c ∈ front,
          ¬ UserType.Creates (scope Resolver.builtin references mode.legacy t) c sb) →
        [sa, sb].Sublist final := by
  obtain ⟨final, hfinal⟩ := exists_ofTree_eq_ok Resolver.answers_builtin references mode ht
  obtain ⟨cs, hcs, rfl⟩ := (ofTree_eq_ok_iff_of_ofJson ht).1 hfinal
  refine ⟨_, hfinal, fun type htype => ?_, fun hsees hne hacyclic hsingle => ?_, ?_,
    fun front rest hnodes hkept hfront hrest hfirst => ?_⟩
  · exact Scope.within_of_typeOf (s := scope Resolver.builtin references mode.legacy t) rfl hx hn
      htype
  · exact sublist_of_uses hcs hacyclic ha hb hne (UserType.uses_of_sees he hx hsees) hsa hsb hsingle
      mode.applyDrops
  · rintro r rfl hentry hguid hkey hslash
    exact TypeName.sees_of_reference hentry hguid hkey hslash
  · exact sublist_of_kept hcs hnodes hkept hfront hrest hsa hsb hfirst mode.applyDrops

/-! ## A type named by its id -/

/-- Two new types, of which the first has the second in a field. -/
def homeTypes (reference : String) : Json :=
  let type (code : String) (more : Entries Json) (fields : Entries Json) : Json :=
    .obj ([("code", .str code), ("keyspaceName", .str "app")] ++ more
      ++ [("properties", .obj fields)])
  let person : Json := type "person" [] [("home", .obj [("$ref", .str reference)])]
  let address : Json :=
    type "address" [("GUID", .str "g-address")] [("street", .obj [("type", .str "string")])]
  let wrapper (node : String × Json) : Json := .obj [("properties", .obj [node])]
  let bucket : Json := .obj [("items", .arr
    [wrapper ("person", person), wrapper ("address", address)])]
  .obj [("properties", .obj [(Partition.userTypes.key, .obj
    [("properties", .obj [(Bucket.added.key, bucket)])])])]

def homeTree (reference : String) : ChangeTree := ⟨(homeTypes reference).get? "properties"⟩

/-- The first type as it is read. -/
def personNode (reference : String) : Child UserType where
  key := "person"
  node :=
    { code := some "person"
      keyspace := some "app"
      properties := some (.named [("home", { reference := some reference })]) }

/-- The second type as it is read. -/
def addressNode : Child UserType where
  key := "address"
  node :=
    { code := some "address"
      guid := some "g-address"
      keyspace := some "app"
      properties := some (.named [("street", { typeName := some "string" })]) }

/-- The statements that create them. -/
def personCreation : Command := .createType ⟨⟨some "app", "person"⟩, [⟨"home", "frozen<address>"⟩]⟩

def addressCreation : Command := .createType ⟨⟨some "app", "address"⟩, [⟨"street", "text"⟩]⟩

/-- Named by its id, the second type is created behind the first, which has it in a field. -/
theorem creations_of_homeTypes :
    ∃ final, ofTree Resolver.builtin .empty {} (homeTypes "g-address") = .ok final ∧
      [personCreation.statement, addressCreation.statement].Sublist final := by
  have ht : ChangeTree.ofJson (homeTypes "g-address") = .ok (homeTree "g-address") := rfl
  have hnodes : newTypes (homeTree "g-address") = [personNode "g-address"] ++ [addressNode] := rfl
  have hperson : UserType.Creates (scope Resolver.builtin .empty false (homeTree "g-address"))
      (personNode "g-address") personCreation.statement := ⟨_, rfl, rfl⟩
  have haddress : UserType.Creates (scope Resolver.builtin .empty false (homeTree "g-address"))
      addressNode addressCreation.statement := ⟨_, rfl, rfl⟩
  obtain ⟨final, hfinal, _, _, _, hkept⟩ := creations_in_order .empty {} ht (a := personNode _)
    (hnodes ▸ .head _) (hnodes ▸ .tail _ (.head _)) hperson haddress (.head _)
    (.reference rfl) (n := "address") rfl
  refine ⟨final, hfinal, hkept _ _ hnodes ?_ (.head _) (.head _) ?_⟩
  · decide
  · intro c hc
    obtain rfl := List.mem_singleton.1 hc
    rintro ⟨d, hd, hstatement⟩
    have hd : [personCreation] = [.createType d] := Except.ok.inj hd
    rw [← List.singleton_inj.1 hd] at hstatement
    exact absurd hstatement (by decide)

/-- By a path the second type is seen, and it is created first. -/
example : ofTree Resolver.builtin .empty {} (homeTypes "#model/definitions/address") =
    .ok [addressCreation.statement, personCreation.statement] := rfl

end Script

end AlterScript
