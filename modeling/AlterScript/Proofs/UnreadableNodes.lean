/-
  Nodes that cannot be read.

  All passes over a tree (the statements of its nodes, the references to its types, their fields and
  their order) see only nodes that can be read, the first or all of each wrapper.
  `WithoutUnreadable` relates a tree to what is left of it without some of the others, and
  `Script.ofTree_of_withoutUnreadable` says that nothing comes of those: the script and whether it
  drops anything are the same.
-/
import AlterScript.Proofs.Wrappers

namespace AlterScript

/-- The second list is the first one without some things of a kind. -/
inductive Without {α : Type} (kind : α → Prop) : List α → List α → Prop
  | nil : Without kind [] []
  | keep (x : α) {xs ys : List α} (h : Without kind xs ys) : Without kind (x :: xs) (x :: ys)
  | leave {x : α} {xs ys : List α} (hx : kind x) (h : Without kind xs ys) :
      Without kind (x :: xs) ys

namespace Without

variable {α β : Type} {kind : α → Prop} {xs ys : List α}

theorem filterMap_eq {f : α → Option β} (hf : ∀ x, kind x → f x = none)
    (h : Without kind xs ys) : xs.filterMap f = ys.filterMap f := by
  induction h with
  | nil => rfl
  | keep x _ ih => rw [List.filterMap_cons, List.filterMap_cons, ih]
  | leave hx _ ih => rw [List.filterMap_cons, hf _ hx, ih]

theorem flatMap_eq {f : α → List β} (hf : ∀ x, kind x → f x = []) (h : Without kind xs ys) :
    xs.flatMap f = ys.flatMap f := by
  induction h with
  | nil => rfl
  | keep x _ ih => rw [List.flatMap_cons, List.flatMap_cons, ih]
  | leave hx _ ih => rw [List.flatMap_cons, hf _ hx, List.nil_append, ih]

end Without

namespace ChangeTree

variable {α : Type} {read : Json → Option α} {item item' : Json} {t t' : ChangeTree}

/-- A wrapper of a single node, which cannot be read. -/
def HoldsUnreadable (read : Json → Option α) (item : Json) : Prop :=
  ∃ e, wrapped? item = some [e] ∧ read e.2 = none

/-- A wrapper without some of its nodes, none of which can be read, or as it was. -/
inductive Weeded (read : Json → Option α) (item item' : Json) : Prop
  | same (h : item = item')
  | nodes {w w' : Entries Json} (hw : wrapped? item = some w) (hw' : wrapped? item' = some w')
      (h : Without (fun e => read e.2 = none) w w')

/-- The second tree is the first one without some nodes that cannot be read: single nodes of tables,
    and in the other parts wrappers that hold nothing else. -/
structure WithoutUnreadable (t t' : ChangeTree) : Prop where
  tables : ∀ b, List.Forall₂ (Weeded Table.ofJson?) (t.items .tables b) (t'.items .tables b)
  keyspaces : ∀ b, Without (HoldsUnreadable Keyspace.ofJson?)
    (t.items .keyspaces b) (t'.items .keyspaces b)
  views : ∀ b, Without (HoldsUnreadable View.ofJson?) (t.items .views b) (t'.items .views b)
  types : ∀ b, Without (HoldsUnreadable UserType.ofJson?)
    (t.items .userTypes b) (t'.items .userTypes b)

/-! ## Nodes -/

theorem child?_eq_none {e : String × Json} (h : read e.2 = none) : child? read e = none := by
  rw [child?, h, Option.map_none]

theorem nodesOf_eq_nil (h : HoldsUnreadable read item) : nodesOf read item = [] := by
  obtain ⟨e, hw, he⟩ := h
  rw [nodesOf, hw, Option.map_some, Option.getD_some, List.filterMap_cons, child?_eq_none he,
    List.filterMap_nil]

theorem firstNodeOf?_eq_none (h : HoldsUnreadable read item) : firstNodeOf? read item = none := by
  obtain ⟨e, hw, he⟩ := h
  rw [firstNodeOf?, hw]
  exact child?_eq_none he

theorem nodesOf_of_weeded (h : Weeded read item item') :
    nodesOf read item = nodesOf read item' := by
  cases h with
  | same h => rw [h]
  | nodes hw hw' h =>
    rw [nodesOf, nodesOf, hw, hw', Option.map_some, Option.map_some,
      h.filterMap_eq fun _ => child?_eq_none]

theorem flatMap_nodesOf_of_weeded {xs ys : List Json} (h : List.Forall₂ (Weeded read) xs ys) :
    xs.flatMap (nodesOf read) = ys.flatMap (nodesOf read) := by
  induction h with
  | nil => rfl
  | cons hitem _ ih => rw [List.flatMap_cons, List.flatMap_cons, nodesOf_of_weeded hitem, ih]

/-! ## Trees -/

/-- Two trees that are the same to every pass. -/
structure SameNodes (t t' : ChangeTree) : Prop extends SameTypes t t' where
  tables : ∀ b, t.children Table.ofJson? .tables b = t'.children Table.ofJson? .tables b
  keyspaces : ∀ b,
    t.firstChildren Keyspace.ofJson? .keyspaces b = t'.firstChildren Keyspace.ofJson? .keyspaces b
  views : ∀ b, t.firstChildren View.ofJson? .views b = t'.firstChildren View.ofJson? .views b

theorem children_of_weeded {p : Partition} {b : Bucket}
    (h : List.Forall₂ (Weeded read) (t.items p b) (t'.items p b)) :
    t.children read p b = t'.children read p b := by
  rw [children_eq_flatMap, children_eq_flatMap]
  exact flatMap_nodesOf_of_weeded h

theorem children_of_without {p : Partition} {b : Bucket}
    (h : Without (HoldsUnreadable read) (t.items p b) (t'.items p b)) :
    t.children read p b = t'.children read p b := by
  rw [children_eq_flatMap, children_eq_flatMap]
  exact h.flatMap_eq fun _ => nodesOf_eq_nil

theorem firstChildren_of_without {p : Partition} {b : Bucket}
    (h : Without (HoldsUnreadable read) (t.items p b) (t'.items p b)) :
    t.firstChildren read p b = t'.firstChildren read p b := by
  rw [firstChildren_eq_filterMap, firstChildren_eq_filterMap]
  exact h.filterMap_eq fun _ => firstNodeOf?_eq_none

theorem WithoutUnreadable.sameNodes (h : t.WithoutUnreadable t') : SameNodes t t' where
  nodes b := children_of_without (h.types b)
  first b := firstChildren_of_without (h.types b)
  tables b := children_of_weeded (h.tables b)
  keyspaces b := firstChildren_of_without (h.keyspaces b)
  views b := firstChildren_of_without (h.views b)

end ChangeTree

namespace Script

variable {t t' : ChangeTree} {root root' : Json}

theorem commands_of_sameNodes (h : t.SameNodes t') (s : Scope) (skipKeyspaces : Bool) :
    commands s skipKeyspaces t = commands s skipKeyspaces t' := by
  have htables : tables s t = tables s t' := funext fun b => by rw [tables, tables, h.tables]
  have hkeyspaces : keyspaces t = keyspaces t' :=
    funext fun b => by rw [keyspaces, keyspaces, h.keyspaces]
  have hviews : views t = views t' := funext fun b => by rw [views, views, h.views]
  have htypes : types s t = types s t' :=
    funext fun b => by rw [types, types, typeNodes_of_sameTypes h.toSameTypes]
  rw [commands, commands, htables, hkeyspaces, hviews, htypes]

theorem generated_of_sameNodes (h : t.SameNodes t') (ht : ChangeTree.ofJson root = .ok t)
    (ht' : ChangeTree.ofJson root' = .ok t') (resolver : Resolver) (references : References)
    (mode : Mode) :
    generated resolver references mode root = generated resolver references mode root' := by
  rw [generated, generated, ht, ht']
  show ((commands _ _ t).mapError CompileError.resolve).bind _ =
    ((commands _ _ t').mapError CompileError.resolve).bind _
  rw [scope_of_sameTypes h.toSameTypes, commands_of_sameNodes h]

/-- Nodes that cannot be read change neither the script nor whether it drops anything. -/
theorem ofTree_of_withoutUnreadable (h : t.WithoutUnreadable t')
    (ht : ChangeTree.ofJson root = .ok t) (ht' : ChangeTree.ofJson root' = .ok t')
    (resolver : Resolver) (references : References) (mode : Mode) :
    ofTree resolver references mode root = ofTree resolver references mode root' ∧
      compile resolver references mode root = compile resolver references mode root' ∧
      isDestructive resolver references mode root =
        isDestructive resolver references mode root' := by
  have hgenerated := generated_of_sameNodes h.sameNodes ht ht' resolver references mode
  have hofTree : ofTree resolver references mode root = ofTree resolver references mode root' := by
    rw [ofTree, ofTree, hgenerated]
  refine ⟨hofTree, ?_, ?_⟩
  · rw [compile, compile, hofTree]
  · rw [isDestructive, isDestructive, hgenerated]

/-- A new table of a new type, and a view that goes; if strewn, also values that are no nodes: one
    beside the table, and one in a wrapper of its own in every other part. -/
def homes (strewn : Bool) : Json :=
  let table : Json := .obj [
    ("role", .obj [("code", .str "homes"),
      ("compMod", .obj [("created", .bool true), ("keyspaceName", .str "app")])]),
    ("properties", .obj [("at", .obj [("$ref", .str "#/definitions/address")])])]
  let address : Json := .obj [("keyspaceName", .str "app"),
    ("properties", .obj [("street", .obj [("type", .str "text")])])]
  let flats : Json :=
    .obj [("role", .obj [("code", .str "flats"), ("keyspaceName", .str "app")])]
  let strewnNode : Entries Json := if strewn then [("none", .str "none")] else []
  let strewnWrapper : List Json := if strewn then [ChangeTree.wrapperOf strewnNode] else []
  ChangeTree.rootOfParts [
    ChangeTree.partOf .tables .added (ChangeTree.wrapperOf (strewnNode ++ [("homes", table)])),
    ChangeTree.partOf .keyspaces .modified (.arr strewnWrapper),
    ChangeTree.partOf .views .deleted
      (.arr (strewnWrapper ++ [ChangeTree.wrapperOf [("flats", flats)]])),
    ChangeTree.partOf .userTypes .added
      (.arr (strewnWrapper ++ [ChangeTree.wrapperOf [("address", address)]]))]

def homesTree (strewn : Bool) : ChangeTree := ⟨(homes strewn).get? "properties"⟩

theorem withoutUnreadable_homes : (homesTree true).WithoutUnreadable (homesTree false) where
  tables b := by
    cases b with
    | added => exact .cons (.nodes rfl rfl (.leave rfl (.keep _ .nil))) .nil
    | modified => exact .nil
    | deleted => exact .nil
  keyspaces b := by
    cases b with
    | added => exact .nil
    | modified => exact .leave ⟨_, rfl, rfl⟩ .nil
    | deleted => exact .nil
  views b := by
    cases b with
    | added => exact .nil
    | modified => exact .nil
    | deleted => exact .leave ⟨_, rfl, rfl⟩ (.keep _ .nil)
  types b := by
    cases b with
    | added => exact .leave ⟨_, rfl, rfl⟩ (.keep _ .nil)
    | modified => exact .nil
    | deleted => exact .nil

/-- The drop of the view and the two additions are the script in either case. -/
theorem ofTree_of_withoutUnreadable_homes :
    ofTree Resolver.builtin .empty {} (homes true) =
        ofTree Resolver.builtin .empty {} (homes false) ∧
      isDestructive Resolver.builtin .empty {} (homes true) = .ok true ∧
      isDestructive Resolver.builtin .empty {} (homes false) = .ok true ∧
      compile Resolver.builtin .empty {} (homes true) =
        compile Resolver.builtin .empty {} (homes false) ∧
      (ofTree Resolver.builtin .empty {} (homes false)).map (List.map Statement.text) = .ok
        ["-- DROP MATERIALIZED VIEW IF EXISTS \"app\".\"flats\";",
          "CREATE TYPE IF NOT EXISTS \"app\".\"address\" (\n\t\"street\" text\n);",
          "CREATE TABLE IF NOT EXISTS \"app\".\"homes\" (\n\t\"at\" frozen<address>\n);"] := by
  have ht : ChangeTree.ofJson (homes true) = .ok (homesTree true) := rfl
  have ht' : ChangeTree.ofJson (homes false) = .ok (homesTree false) := rfl
  have hdrops : isDestructive Resolver.builtin .empty {} (homes false) = .ok true := rfl
  obtain ⟨hofTree, hcompile, hdestructive⟩ :=
    ofTree_of_withoutUnreadable withoutUnreadable_homes ht ht' Resolver.builtin .empty {}
  exact ⟨hofTree, hdestructive.trans hdrops, hdrops, hcompile, rfl⟩

end Script

end AlterScript
