/-
  The wrappers of a tree, one by one.

  A table, a keyspace or a view shares nothing with the others but the user-defined types: a command
  of a tree is one of a user-defined type or of one item of one other bucket
  (`mem_commands_iff_ofItem`). So a script has the statements that the wrappers give each on its own,
  and the order of the wrappers decides only the order within a slot:
  `Script.ofTree_wrapper_by_wrapper`.
-/
import AlterScript.Proofs.Answers
import AlterScript.Proofs.ScriptOrder

namespace AlterScript

namespace ChangeTree

variable {α : Type} (read : Json → Option α) (t : ChangeTree) (p : Partition) (b : Bucket)

/-! ## Nodes of an item -/

/-- The nodes in an item of a bucket. -/
def nodesOf (item : Json) : List (Child α) :=
  ((wrapped? item).map fun w => w.filterMap (child? read)).getD []

/-- The first node in an item of a bucket. -/
def firstNodeOf? (item : Json) : Option (Child α) :=
  (wrapped? item).bind fun w => w.head?.bind (child? read)

theorem children_eq_flatMap : t.children read p b = (t.items p b).flatMap (nodesOf read) := by
  rw [children, wrappers]
  induction t.items p b with
  | nil => rfl
  | cons item r ih =>
    rw [List.flatMap_cons, List.filterMap_cons, nodesOf]
    cases wrapped? item with
    | none => exact ih
    | some w =>
      rw [List.flatMap_cons, ih]
      rfl

theorem firstChildren_eq_filterMap :
    t.firstChildren read p b = (t.items p b).filterMap (firstNodeOf? read) := by
  rw [firstChildren, wrappers, List.filterMap_filterMap]
  rfl

/-! ## Parts of a tree -/

/-- A part of a tree, if it is there. -/
def part? : Option Json := t.properties.bind (Json.get? p.key)

/-- The part of the user-defined types under its name. -/
def typesPart : Entries Json := ((t.part? .userTypes).map (Prod.mk Partition.userTypes.key)).toList

/-- The root of a tree that keeps the user-defined types and nothing else. -/
def typesOnly : Json := rootOfParts t.typesPart

/-- The root of a tree that keeps the user-defined types and one wrapper in its bucket. -/
def only (wrapper : Json) : Json := rootOfParts (partOf p b (.arr [wrapper]) :: t.typesPart)

/-- The same user-defined types, and in every other bucket the same items, in whatever order. -/
structure Rearranges (t t' : ChangeTree) : Prop where
  types : ∀ b, t'.items .userTypes b = t.items .userTypes b
  others : ∀ p b, p ≠ .userTypes → (t'.items p b).Perm (t.items p b)

end ChangeTree

theorem Partition.key_inj {p q : Partition} : p.key = q.key ↔ p = q := by
  cases p <;> cases q <;> simp [key]

theorem Bucket.key_inj {b c : Bucket} : b.key = c.key ↔ b = c := by
  cases b <;> cases c <;> simp [key]

namespace ChangeTree

variable {t t' parts : ChangeTree} {p q : Partition} {b c : Bucket} {wrapper : Json}

theorem items_congr (h : t.part? p = t'.part? p) (b : Bucket) : t.items p b = t'.items p b := by
  rw [items, items, show t.properties.bind _ = _ from h]
  rfl

theorem items_of_part?_eq_none (h : t.part? p = none) (b : Bucket) : t.items p b = [] := by
  rw [items, show t.properties.bind _ = _ from h]
  rfl

theorem find_items_of_partOf (q : Partition) (b c : Bucket) (items : Json) :
    (((partOf q b items).2.get? "properties").bind (Json.get? c.key)).bind (Json.get? "items") =
      if c = b then some items else none := by
  show (if b.key = c.key then _ else none : Option Json).bind (Json.get? "items") = _
  by_cases hc : c = b
  · rw [if_pos hc, if_pos (congrArg Bucket.key hc.symm)]
    rfl
  · rw [if_neg hc, if_neg fun hkey => hc (Bucket.key_inj.1 hkey).symm]
    rfl

theorem items_of_part?_eq_partOf {js : List Json} (h : t.part? p = some (partOf q b (.arr js)).2)
    (c : Bucket) : t.items p c = if c = b then js else [] := by
  rw [items, show t.properties.bind _ = _ from h, Option.bind_some, find_items_of_partOf]
  by_cases hc : c = b
  · rw [if_pos hc, if_pos hc]
  · rw [if_neg hc, if_neg hc]

theorem part?_of_rootOfParts {entries : Entries Json}
    (h : ofJson (rootOfParts entries) = .ok parts) (p : Partition) :
    parts.part? p = entries.find? p.key := by
  obtain rfl := Except.ok.inj h
  rfl

theorem find?_typesPart (t : ChangeTree) (p : Partition) :
    Entries.find? p.key t.typesPart = if p = .userTypes then t.part? p else none := by
  by_cases hp : p = .userTypes
  · subst hp
    rw [if_pos rfl, typesPart]
    cases t.part? .userTypes with
    | none => rfl
    | some part => exact if_pos rfl
  · rw [if_neg hp, typesPart]
    cases t.part? .userTypes with
    | none => rfl
    | some part => exact if_neg fun hkey => hp (Partition.key_inj.1 hkey).symm

theorem items_typesOnly (h : ofJson t.typesOnly = .ok parts) (p : Partition) (b : Bucket) :
    parts.items p b = if p = .userTypes then t.items p b else [] := by
  have hpart := (part?_of_rootOfParts h p).trans (find?_typesPart t p)
  by_cases hp : p = .userTypes
  · rw [if_pos hp] at hpart ⊢
    exact items_congr hpart b
  · rw [if_neg hp] at hpart ⊢
    exact items_of_part?_eq_none hpart b

theorem items_only (hp : p ≠ .userTypes) (h : ofJson (t.only p b wrapper) = .ok parts)
    (q : Partition) (c : Bucket) :
    parts.items q c =
      if q = .userTypes then t.items q c else if q = p ∧ c = b then [wrapper] else [] := by
  have hpart : parts.part? q = if p.key = q.key then some (partOf p b (.arr [wrapper])).2
      else if q = .userTypes then t.part? q else none := by
    rw [part?_of_rootOfParts h, ← find?_typesPart t q]
    rfl
  by_cases hq : q = p
  · subst hq
    rw [if_pos rfl] at hpart
    rw [if_neg hp, items_of_part?_eq_partOf hpart]
    simp only [true_and]
  · rw [if_neg fun hkey => hq (Partition.key_inj.1 hkey).symm] at hpart
    by_cases htypes : q = .userTypes
    · rw [if_pos htypes] at hpart ⊢
      exact items_congr hpart c
    · rw [if_neg htypes] at hpart ⊢
      rw [if_neg fun h => hq h.1, items_of_part?_eq_none hpart]

/-! ## Trees with the same user-defined types -/

/-- Two trees with the same nodes for user-defined types. -/
structure SameTypes (t t' : ChangeTree) : Prop where
  nodes : ∀ b, t.children UserType.ofJson? .userTypes b = t'.children UserType.ofJson? .userTypes b
  first : ∀ b, t.firstChildren UserType.ofJson? .userTypes b =
    t'.firstChildren UserType.ofJson? .userTypes b

theorem sameTypes_of_items (h : ∀ b, t.items .userTypes b = t'.items .userTypes b) :
    SameTypes t t' where
  nodes b := by rw [children_eq_flatMap, children_eq_flatMap, h]
  first b := by rw [firstChildren_eq_filterMap, firstChildren_eq_filterMap, h]

end ChangeTree

namespace Script

open ChangeTree (nodesOf firstNodeOf?)

variable {s : Scope} {t t' : ChangeTree} {skipKeyspaces : Bool} {c : Command} {cs : List Command}
  {resolver : Resolver} {references : References} {mode : Mode} {root root' : Json}
  {st : Statement}

theorem scope_of_sameTypes (h : t.SameTypes t') (resolver : Resolver) (references : References)
    (legacy : Bool) : scope resolver references legacy t = scope resolver references legacy t' := by
  have hdeclared : References.declared t = References.declared t' := by
    rw [References.declared, References.declared, funext h.nodes]
  rw [scope, scope, References.ofTree, References.ofTree, hdeclared]

theorem typeNodes_of_sameTypes (h : t.SameTypes t') (b : Bucket) :
    typeNodes t b = typeNodes t' b := by
  simp only [typeNodes, h.first]

theorem ofType_of_sameTypes (h : t.SameTypes t') : OfType s t c ↔ OfType s t' c := by
  simp only [OfType, typeNodes_of_sameTypes h]

/-! ## Commands of an item -/

/-- A command of a table, a keyspace or a view in an item of a bucket. -/
def OfItem (s : Scope) (skipKeyspaces : Bool) (b : Bucket) (item : Json) (c : Command) :
    Partition → Prop
  | .tables => ∃ n ∈ nodesOf Table.ofJson? item, ∃ ys,
      n.node.commands s (.ofBucket b) n.key = .ok ys ∧ c ∈ ys
  | .keyspaces => skipKeyspaces = false ∧
      ∃ n, firstNodeOf? Keyspace.ofJson? item = some n ∧ c ∈ n.node.commands (.ofBucket b)
  | .views => ∃ n, firstNodeOf? View.ofJson? item = some n ∧ c ∈ n.node.commands (.ofBucket b)
  | .userTypes => False

theorem ofTable_iff_ofItem (skipKeyspaces : Bool) :
    OfTable s t c ↔ ∃ b, ∃ item ∈ t.items .tables b, OfItem s skipKeyspaces b item c .tables := by
  simp only [OfTable, ChangeTree.children_eq_flatMap, List.mem_flatMap, OfItem]
  constructor
  · rintro ⟨b, n, ⟨item, hitem, hn⟩, hc⟩
    exact ⟨b, item, hitem, n, hn, hc⟩
  · rintro ⟨b, item, hitem, n, hn, hc⟩
    exact ⟨b, n, ⟨item, hitem, hn⟩, hc⟩

theorem mem_keyspaces_iff_ofItem (s : Scope) :
    (skipKeyspaces = false ∧ ∃ b, c ∈ keyspaces t b) ↔
      ∃ b, ∃ item ∈ t.items .keyspaces b, OfItem s skipKeyspaces b item c .keyspaces := by
  simp only [keyspaces, ChangeTree.firstChildren_eq_filterMap, List.mem_flatMap, List.mem_filterMap,
    OfItem]
  constructor
  · rintro ⟨hskip, b, n, ⟨item, hitem, hn⟩, hc⟩
    exact ⟨b, item, hitem, hskip, n, hn, hc⟩
  · rintro ⟨b, item, hitem, hskip, n, hn, hc⟩
    exact ⟨hskip, b, n, ⟨item, hitem, hn⟩, hc⟩

theorem mem_views_iff_ofItem (s : Scope) (skipKeyspaces : Bool) :
    (∃ b, c ∈ views t b) ↔
      ∃ b, ∃ item ∈ t.items .views b, OfItem s skipKeyspaces b item c .views := by
  simp only [views, ChangeTree.firstChildren_eq_filterMap, List.mem_flatMap, List.mem_filterMap,
    OfItem]
  constructor
  · rintro ⟨b, n, ⟨item, hitem, hn⟩, hc⟩
    exact ⟨b, item, hitem, n, hn, hc⟩
  · rintro ⟨b, item, hitem, n, hn, hc⟩
    exact ⟨b, n, ⟨item, hitem, hn⟩, hc⟩

/-- Every command is one of a user-defined type, or one of an item of another part. -/
theorem mem_commands_iff_ofItem (h : commands s skipKeyspaces t = .ok cs) :
    c ∈ cs ↔ OfType s t c ∨
      ∃ p b, p ≠ .userTypes ∧ ∃ item ∈ t.items p b, OfItem s skipKeyspaces b item c p := by
  rw [mem_commands_iff h, ofTable_iff_ofItem skipKeyspaces, mem_keyspaces_iff_ofItem s,
    mem_views_iff_ofItem s skipKeyspaces]
  constructor
  · rintro (⟨b, hc⟩ | ⟨b, hc⟩ | ⟨b, hc⟩ | hc)
    · exact Or.inr ⟨.tables, b, by simp, hc⟩
    · exact Or.inr ⟨.keyspaces, b, by simp, hc⟩
    · exact Or.inr ⟨.views, b, by simp, hc⟩
    · exact Or.inl hc
  · rintro (hc | ⟨p, b, hp, hc⟩)
    · exact Or.inr (Or.inr (Or.inr hc))
    · cases p with
      | tables => exact Or.inl ⟨b, hc⟩
      | keyspaces => exact Or.inr (Or.inl ⟨b, hc⟩)
      | views => exact Or.inr (Or.inr (Or.inl ⟨b, hc⟩))
      | userTypes => exact absurd rfl hp

/-! ## Scripts -/

/-- The script of a tree has a statement. -/
def Has (resolver : Resolver) (references : References) (mode : Mode) (root : Json)
    (st : Statement) : Prop :=
  ∃ final, ofTree resolver references mode root = .ok final ∧ st ∈ final

/-- A statement as it stands in a script, with its drop applied or not. -/
def standing (applyDrops : Bool) (c : Command) : Statement :=
  if !applyDrops && c.statement.isDestructive then c.statement.commentedOut else c.statement

/-- A script has a statement for each command of a user-defined type and each one of an item. -/
theorem has_iff (hr : resolver.Answers) (ht : ChangeTree.ofJson root = .ok t) :
    Has resolver references mode root st ↔ ∃ c, standing mode.applyDrops c = st ∧
      (OfType (scope resolver references mode.legacy t) t c ∨
        ∃ p b, p ≠ .userTypes ∧ ∃ item ∈ t.items p b,
          OfItem (scope resolver references mode.legacy t) mode.skipKeyspaces b item c p) := by
  obtain ⟨cs, hcs⟩ := exists_commands_eq_ok (s := scope resolver references mode.legacy t) hr
    mode.skipKeyspaces t
  have hfinal := (ofTree_eq_ok_iff_of_ofJson ht).2 ⟨cs, hcs, rfl⟩
  simp only [← mem_commands_iff_ofItem hcs]
  constructor
  · rintro ⟨final, hfinal', hst⟩
    obtain rfl := Except.ok.inj (hfinal.symm.trans hfinal')
    obtain ⟨r, hr, rfl⟩ := (mem_ofStatements_iff _ _ _).1 hst
    obtain ⟨c, hc, rfl⟩ := List.mem_map.1 hr
    exact ⟨c, rfl, hc⟩
  · rintro ⟨c, rfl, hc⟩
    exact ⟨_, hfinal, (mem_ofStatements_iff _ _ _).2 ⟨_, List.mem_map_of_mem hc, rfl⟩⟩

theorem has_typesOnly_iff (hr : resolver.Answers) :
    Has resolver references mode t.typesOnly st ↔ ∃ c, standing mode.applyDrops c = st ∧
      OfType (scope resolver references mode.legacy t) t c := by
  obtain ⟨parts, hparts⟩ : ∃ parts, ChangeTree.ofJson t.typesOnly = .ok parts := ⟨_, rfl⟩
  have hitems := ChangeTree.items_typesOnly hparts
  have hsame : parts.SameTypes t :=
    ChangeTree.sameTypes_of_items fun b => (hitems _ b).trans (if_pos rfl)
  rw [has_iff hr hparts, scope_of_sameTypes hsame]
  refine exists_congr fun c => and_congr_right fun _ => ?_
  rw [ofType_of_sameTypes hsame]
  constructor
  · rintro (hc | ⟨p, b, hp, item, hitem, _⟩)
    · exact hc
    · rw [hitems, if_neg hp] at hitem
      exact absurd hitem List.not_mem_nil
  · exact Or.inl

theorem has_only_iff (hr : resolver.Answers) {p : Partition} (hp : p ≠ .userTypes) (b : Bucket)
    (wrapper : Json) :
    Has resolver references mode (t.only p b wrapper) st ↔ ∃ c, standing mode.applyDrops c = st ∧
      (OfType (scope resolver references mode.legacy t) t c ∨
        OfItem (scope resolver references mode.legacy t) mode.skipKeyspaces b wrapper c p) := by
  obtain ⟨parts, hparts⟩ : ∃ parts, ChangeTree.ofJson (t.only p b wrapper) = .ok parts := ⟨_, rfl⟩
  have hitems := ChangeTree.items_only hp hparts
  have hsame : parts.SameTypes t :=
    ChangeTree.sameTypes_of_items fun b => (hitems _ b).trans (if_pos rfl)
  rw [has_iff hr hparts, scope_of_sameTypes hsame]
  refine exists_congr fun c => and_congr_right fun _ => ?_
  rw [ofType_of_sameTypes hsame]
  refine or_congr_right ⟨?_, fun hc => ?_⟩
  · rintro ⟨q, d, hq, item, hitem, hc⟩
    rw [hitems, if_neg hq] at hitem
    by_cases heq : q = p ∧ d = b
    · obtain ⟨rfl, rfl⟩ := heq
      rw [if_pos ⟨rfl, rfl⟩] at hitem
      rwa [← List.mem_singleton.1 hitem]
    · rw [if_neg heq] at hitem
      exact absurd hitem List.not_mem_nil
  · refine ⟨p, b, hp, wrapper, ?_, hc⟩
    rw [hitems, if_neg hp, if_pos ⟨rfl, rfl⟩]
    exact List.mem_singleton.2 rfl

/-- A script has what its user-defined types give, and what each wrapper gives beside them. -/
theorem has_iff_has_only (hr : resolver.Answers) (ht : ChangeTree.ofJson root = .ok t) :
    Has resolver references mode root st ↔
      Has resolver references mode t.typesOnly st ∨
        ∃ p b, p ≠ .userTypes ∧ ∃ w ∈ t.items p b,
          Has resolver references mode (t.only p b w) st := by
  rw [has_iff hr ht, has_typesOnly_iff hr]
  constructor
  · rintro ⟨c, hst, hc | ⟨p, b, hp, w, hw, hc⟩⟩
    · exact Or.inl ⟨c, hst, hc⟩
    · exact Or.inr ⟨p, b, hp, w, hw, (has_only_iff hr hp b w).2 ⟨c, hst, Or.inr hc⟩⟩
  · rintro (⟨c, hst, hc⟩ | ⟨p, b, hp, w, hw, hc⟩)
    · exact ⟨c, hst, Or.inl hc⟩
    · obtain ⟨c, hst, hc⟩ := (has_only_iff hr hp b w).1 hc
      exact ⟨c, hst, hc.imp id fun hc => ⟨p, b, hp, w, hw, hc⟩⟩

/-! ## Wrappers in another order -/

theorem mem_commands_iff_of_rearranges (h : t.Rearranges t') {cs' : List Command}
    (hcs : commands (scope resolver references mode.legacy t) skipKeyspaces t = .ok cs)
    (hcs' : commands (scope resolver references mode.legacy t') skipKeyspaces t' = .ok cs') :
    c ∈ cs' ↔ c ∈ cs := by
  have hsame : t'.SameTypes t := ChangeTree.sameTypes_of_items h.types
  rw [scope_of_sameTypes hsame] at hcs'
  rw [mem_commands_iff_ofItem hcs', mem_commands_iff_ofItem hcs, ofType_of_sameTypes hsame]
  refine or_congr_right (exists_congr fun p => exists_congr fun b => and_congr_right fun hp => ?_)
  refine exists_congr fun item => and_congr_left fun _ => ?_
  exact (h.others p b hp).mem_iff

theorem slot_standing (applyDrops : Bool) (c : Command) :
    slot (standing applyDrops c) = slot c.statement := by
  rw [standing]
  split <;> rfl

theorem slot_mem_of_mem_ofStatements {applyDrops : Bool}
    (h : st ∈ ofStatements applyDrops (cs.map Command.statement)) : slot st ∈ precedence := by
  obtain ⟨r, hr, rfl⟩ := (mem_ofStatements_iff _ _ _).1 h
  obtain ⟨c, _, rfl⟩ := List.mem_map.1 hr
  show slot (standing applyDrops c) ∈ precedence
  rw [slot_standing]
  exact slot_mem_precedence c

/-- Tables, keyspaces and views are compiled each on its own. With a resolver that always answers, a
    script has the statements of the user-defined types, and of each wrapper beside them; and with
    the wrappers in another order it has the same statements, in slots of the same order. -/
theorem ofTree_wrapper_by_wrapper (hr : resolver.Answers) (references : References) (mode : Mode)
    (ht : ChangeTree.ofJson root = .ok t) :
    (∃ final, ofTree resolver references mode root = .ok final) ∧
    (∃ final, ofTree resolver references mode t.typesOnly = .ok final) ∧
    (∀ p b w, ∃ final, ofTree resolver references mode (t.only p b w) = .ok final) ∧
    (∀ st, Has resolver references mode root st ↔
      Has resolver references mode t.typesOnly st ∨
        ∃ p b, p ≠ .userTypes ∧ ∃ w ∈ t.items p b,
          Has resolver references mode (t.only p b w) st) ∧
    ∀ root' t', ChangeTree.ofJson root' = .ok t' → t.Rearranges t' → ∃ final final',
      ofTree resolver references mode root = .ok final ∧
      ofTree resolver references mode root' = .ok final' ∧
      final'.Perm final ∧ final'.map slot = final.map slot := by
  refine ⟨exists_ofTree_eq_ok hr references mode ht, exists_ofTree_eq_ok hr references mode rfl,
    fun p b w => exists_ofTree_eq_ok hr references mode rfl, fun st => has_iff_has_only hr ht,
    fun root' t' ht' h => ?_⟩
  obtain ⟨cs, hcs⟩ := exists_commands_eq_ok (s := scope resolver references mode.legacy t) hr
    mode.skipKeyspaces t
  obtain ⟨cs', hcs'⟩ := exists_commands_eq_ok (s := scope resolver references mode.legacy t') hr
    mode.skipKeyspaces t'
  have hmem : ∀ st, st ∈ cs'.map Command.statement ↔ st ∈ cs.map Command.statement := by
    intro st
    simp only [List.mem_map, mem_commands_iff_of_rearranges h hcs hcs']
  have hperm := perm_ofStatements hmem mode.applyDrops
  refine ⟨_, _, (ofTree_eq_ok_iff_of_ofJson ht).2 ⟨cs, hcs, rfl⟩,
    (ofTree_eq_ok_iff_of_ofJson ht').2 ⟨cs', hcs', rfl⟩, hperm, ?_⟩
  exact map_slot_eq_of_perm hperm (pairwise_rank_inOrder _) (pairwise_rank_inOrder _)
    fun st hst => slot_mem_of_mem_ofStatements hst

/-- Two new tables in either order, one of them with a column of a new type. -/
def homesAndShops (swapped : Bool) : Json :=
  let table (code column : String) (field : Json) : Json := .obj [
    ("role", .obj [("code", .str code),
      ("compMod", .obj [("created", .bool true), ("keyspaceName", .str "app")])]),
    ("properties", .obj [(column, field)])]
  let homes := table "homes" "at" (.obj [("$ref", .str "#/definitions/address")])
  let shops := table "shops" "id" (.obj [("type", .str "uuid")])
  let address : Json := .obj [("keyspaceName", .str "app"),
    ("properties", .obj [("street", .obj [("type", .str "text")])])]
  let wrappers :=
    [ChangeTree.wrapperOf [("homes", homes)], ChangeTree.wrapperOf [("shops", shops)]]
  ChangeTree.rootOfParts [
    ChangeTree.partOf .tables .added (.arr (if swapped then wrappers.reverse else wrappers)),
    ChangeTree.partOf .userTypes .added (ChangeTree.wrapperOf [("address", address)])]

def homesAndShopsTree (swapped : Bool) : ChangeTree :=
  ⟨(homesAndShops swapped).get? "properties"⟩

theorem rearranges_homesAndShops :
    (homesAndShopsTree false).Rearranges (homesAndShopsTree true) := by
  constructor
  · intro b
    cases b <;> rfl
  · intro p b _
    cases p with
    | tables =>
      cases b with
      | added => exact List.reverse_perm _
      | modified => exact .nil
      | deleted => exact .nil
    | keyspaces => cases b <;> exact .nil
    | views => cases b <;> exact .nil
    | userTypes => cases b <;> rfl

/-- The script has the type and both tables; with the tables the other way round it has the same
    statements, the type still first. -/
theorem ofTree_wrapper_by_wrapper_of_homesAndShops :
    (∀ st, Has Resolver.builtin .empty {} (homesAndShops false) st ↔
      Has Resolver.builtin .empty {} (homesAndShopsTree false).typesOnly st ∨
        ∃ p b, p ≠ .userTypes ∧ ∃ w ∈ (homesAndShopsTree false).items p b,
          Has Resolver.builtin .empty {} ((homesAndShopsTree false).only p b w) st) ∧
    ∃ final final',
      ofTree Resolver.builtin .empty {} (homesAndShops false) = .ok final ∧
      ofTree Resolver.builtin .empty {} (homesAndShops true) = .ok final' ∧
      final'.Perm final ∧ final'.map slot = final.map slot ∧
      final.map Statement.text =
        ["CREATE TYPE IF NOT EXISTS \"app\".\"address\" (\n\t\"street\" text\n);",
          "CREATE TABLE IF NOT EXISTS \"app\".\"homes\" (\n\t\"at\" frozen<address>\n);",
          "CREATE TABLE IF NOT EXISTS \"app\".\"shops\" (\n\t\"id\" uuid\n);"] := by
  have ht : ChangeTree.ofJson (homesAndShops false) = .ok (homesAndShopsTree false) := rfl
  obtain ⟨⟨final, hfinal⟩, _, _, hhas, hrearranged⟩ :=
    ofTree_wrapper_by_wrapper Resolver.answers_builtin .empty {} ht
  obtain ⟨_, final', h, hfinal', hperm, hslots⟩ :=
    hrearranged (homesAndShops true) _ rfl rearranges_homesAndShops
  obtain rfl := Except.ok.inj (hfinal.symm.trans h)
  refine ⟨hhas, final, final', hfinal, hfinal', hperm, hslots, ?_⟩
  have htexts : (ofTree Resolver.builtin .empty {} (homesAndShops false)).map
      (List.map Statement.text) = .ok _ := rfl
  rw [hfinal] at htexts
  exact Except.ok.inj htexts

end Script

end AlterScript
