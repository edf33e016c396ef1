/-
  Names that are written as numbers.

  `Json.At` relates two records that differ in one attribute. The own names of a node are read by a
  total function that takes a numeral and its number for one text, so nothing changes when one of
  them is written as a number. The old and the new name in a comparison are read as strings only: a
  number there makes the node unreadable. `Script.agree_of_numbered` says what comes of either, for
  every node of every tree.
-/
import AlterScript.Proofs.DeclaredTypes
import AlterScript.Proofs.UnreadableNodes

namespace AlterScript

/-! ## Records that differ in one attribute -/

namespace Entries

variable {α : Type} {key : String} {before after : Entries α} {v : α}

theorem find?_append_cons_self (hbefore : key ∉ keys before) :
    find? key (before ++ (key, v) :: after) = some v := by
  induction before with
  | nil => exact if_pos rfl
  | cons e before ih =>
    have hne : key ≠ e.1 := List.ne_of_not_mem_cons hbefore
    rw [List.cons_append, find?, if_neg hne.symm]
    exact ih (List.not_mem_of_not_mem_cons hbefore)

theorem find?_append_cons_of_ne {k : String} (hk : k ≠ key) (v w : α) :
    find? k (before ++ (key, v) :: after) = find? k (before ++ (key, w) :: after) := by
  induction before with
  | nil => rw [List.nil_append, List.nil_append, find?, find?, if_neg hk.symm, if_neg hk.symm]
  | cons e before ih => rw [List.cons_append, List.cons_append, find?, find?, ih]

end Entries

namespace Json

variable {α : Type} {attributes : List String} {key : String} {R : Json → Json → Prop}
  {j j' : Json} {es es' : Entries Json} {read : Entries Json → Option α}

/-- The second record is the first one with one attribute replaced. Of a name that stands twice in
    an object the first counts. -/
inductive At (attributes : List String) (key : String) (R : Json → Json → Prop) : Json → Json → Prop
  | obj {before after : Entries Json} {v v' : Json} (hbefore : key ∉ Entries.keys before)
      (h : R v v') :
      At attributes key R (.obj (before ++ (key, v) :: after)) (.obj (before ++ (key, v') :: after))
  | arr {front back : List String} {before after : List Json} {v v' : Json}
      (hattributes : attributes = front ++ key :: back) (hfront : key ∉ front)
      (hlength : front.length = before.length) (h : R v v') :
      At attributes key R (.arr (before ++ v :: after)) (.arr (before ++ v' :: after))

theorem At.head {after : Entries Json} {v v' : Json} (h : R v v') :
    At attributes key R (.obj ((key, v) :: after)) (.obj ((key, v') :: after)) :=
  @At.obj attributes key R [] after v v' List.not_mem_nil h

theorem At.tail {name : String} {value : Json} (hne : key ≠ name)
    (h : At attributes key R (.obj es) (.obj es')) :
    At attributes key R (.obj ((name, value) :: es)) (.obj ((name, value) :: es')) := by
  cases h with
  | @obj before after v v' hbefore h =>
    exact @At.obj attributes key R ((name, value) :: before) after v v'
      (List.not_mem_cons_of_ne_of_not_mem hne hbefore) h

/-- Two lists of attributes differ in one attribute at most. -/
structure DifferAt (key : String) (R : Json → Json → Prop) (es es' : Entries Json) : Prop where
  others : ∀ k, k ≠ key → es.find? k = es'.find? k
  here : ∃ v v', es.find? key = some v ∧ es'.find? key = some v' ∧ R v v'

theorem differAt_append {before after : Entries Json} {v v' : Json}
    (hbefore : key ∉ Entries.keys before) (h : R v v') :
    DifferAt key R (before ++ (key, v) :: after) (before ++ (key, v') :: after) where
  others _ hk := Entries.find?_append_cons_of_ne hk v v'
  here := ⟨v, v', Entries.find?_append_cons_self hbefore, Entries.find?_append_cons_self hbefore, h⟩

theorem differAt_zip {front back : List String} {before after : List Json} {v v' : Json}
    (hfront : key ∉ front) (hlength : front.length = before.length) (h : R v v') :
    DifferAt key R ((front ++ key :: back).zip (before ++ v :: after))
      ((front ++ key :: back).zip (before ++ v' :: after)) := by
  rw [List.zip_append hlength, List.zip_append hlength]
  refine differAt_append (fun hmem => hfront ?_) h
  rw [Entries.keys, List.map_fst_zip hlength.le] at hmem
  exact hmem

theorem At.ne_null (h : At attributes key R j j') : j ≠ .null ∧ j' ≠ .null := by
  cases h with
  | obj => exact ⟨Json.noConfusion, Json.noConfusion⟩
  | arr => exact ⟨Json.noConfusion, Json.noConfusion⟩

/-- Of two records that differ in one attribute the attributes are found, or both have too many. -/
theorem At.record?_cases (h : At attributes key R j j') :
    (∃ es es', record? attributes j = some es ∧ record? attributes j' = some es' ∧
      DifferAt key R es es') ∨ (record? attributes j = none ∧ record? attributes j' = none) := by
  cases h with
  | obj hbefore h => exact .inl ⟨_, _, rfl, rfl, differAt_append hbefore h⟩
  | @arr front back before after v v' hattributes hfront hlength h =>
    subst hattributes
    by_cases hshort : (before ++ v :: after).length ≤ (front ++ key :: back).length
    · have hshort' : (before ++ v' :: after).length ≤ (front ++ key :: back).length := by
        simpa using hshort
      exact .inl ⟨_, _, if_pos hshort, if_pos hshort', differAt_zip hfront hlength h⟩
    · have hlong' : ¬ (before ++ v' :: after).length ≤ (front ++ key :: back).length := by
        simpa using hshort
      exact .inr ⟨if_neg hshort, if_neg hlong'⟩

/-- What is made of the attributes of two such records alike is made of the records alike. -/
theorem At.bind_record?_eq (h : At attributes key R j j')
    (hread : ∀ es es', DifferAt key R es es' → read es = read es') :
    (record? attributes j).bind read = (record? attributes j').bind read := by
  rcases h.record?_cases with ⟨es, es', hes, hes', hdiffer⟩ | ⟨hnone, hnone'⟩
  · rw [hes, hes', Option.bind_some, Option.bind_some, hread es es' hdiffer]
  · rw [hnone, hnone']

theorem At.bind_record?_eq_none (h : At attributes key R j j')
    (hread : ∀ es es', DifferAt key R es es' → read es' = none) :
    (record? attributes j').bind read = none := by
  rcases h.record?_cases with ⟨es, es', -, hes', hdiffer⟩ | ⟨-, hnone'⟩
  · rw [hes', Option.bind_some, hread es es' hdiffer]
  · rw [hnone', Option.bind_none]

theorem At.bind_fullRecord?_eq_none (h : At attributes key R j j')
    (hread : ∀ es es', DifferAt key R es es' → read es' = none) :
    (fullRecord? attributes j').bind read = none := by
  cases h with
  | obj hbefore h => exact hread _ _ (differAt_append hbefore h)
  | @arr front back before after v v' hattributes hfront hlength h =>
    subst hattributes
    rw [fullRecord?]
    split
    · exact hread _ _ (differAt_zip hfront hlength h)
    · rfl

/-! ## Numbers for numerals -/

/-- A numeral and the number that it stands for. -/
def Numbered (j j' : Json) : Prop := ∃ i : Int, j = .str (toString i) ∧ j' = .num (.int i)

theorem label?_of_numbered (h : Numbered j j') : label? (some j) = label? (some j') := by
  obtain ⟨i, rfl, rfl⟩ := h
  show Text.nonBlank (toString i) = some (toString i)
  rw [Text.nonBlank, Text.isBlank_toString_int, if_neg Bool.false_ne_true]

theorem DifferAt.label?_eq (h : DifferAt key Numbered es es') (k : String) :
    label? (es.find? k) = label? (es'.find? k) := by
  by_cases hk : k = key
  · obtain ⟨v, v', hv, hv', hnumbered⟩ := h.here
    rw [hk, hv, hv', label?_of_numbered hnumbered]
  · rw [h.others k hk]

theorem optional_eq_none {read : Json → Option α} (hnull : j ≠ .null) (h : read j = none) :
    optional read (some j) = none := by
  have hmap : (read j).map some = none := by rw [h, Option.map_none]
  cases j with
  | null => exact absurd rfl hnull
  | _ => exact hmap

/-- A change of a name cannot be read if the old or the new name is a number. -/
theorem textChange?_eq_none {member : String} (hmember : member ∈ ["old", "new"])
    (h : At ["old", "new"] member Numbered j j') : textChange? (some j') = none := by
  refine optional_eq_none h.ne_null.2 ?_
  refine h.bind_fullRecord?_eq_none fun es es' hdiffer => ?_
  obtain ⟨_, _, -, hv', i, -, rfl⟩ := hdiffer.here
  have hmember : member = "old" ∨ member = "new" := by simpa using hmember
  rcases hmember with rfl | rfl
  · rw [hv']
    rfl
  · rw [hv']
    exact Option.bind_fun_none _

end Json

/-! ## Nodes -/

namespace Partition

/-- Two nodes of which the descriptions differ in one attribute. -/
def Describes (key : String) (R : Json → Json → Prop) : Partition → Json → Json → Prop
  | tables => Json.At ["role", "properties"] "role" (Json.At TableRole.attributes key R)
  | keyspaces => Json.At ["role"] "role" (Json.At Keyspace.attributes key R)
  | views => Json.At ["role"] "role" (Json.At View.attributes key R)
  | userTypes => Json.At UserType.attributes key R

/-- The attributes of a comparison. -/
def comparisonAttributes : Partition → List String
  | tables => TableComparison.attributes
  | keyspaces => KeyspaceComparison.attributes
  | views => ViewComparison.attributes
  | userTypes => UserTypeComparison.attributes

/-- The names of which a comparison holds the old and the new one. -/
def comparedNames : Partition → List String
  | tables => ["code", "name", "collectionName"]
  | keyspaces | views | userTypes => ["code", "name"]

/-- The second node is the first one with one of its own names as a number. -/
def OwnNumbered (p : Partition) (j j' : Json) : Prop :=
  ∃ key ∈ ["code", "name"], p.Describes key Json.Numbered j j'

/-- The second node is the first one with an old or a new name in its comparison as a number. -/
def ComparedNumbered (p : Partition) (j j' : Json) : Prop :=
  ∃ key ∈ p.comparedNames, ∃ member ∈ ["old", "new"],
    p.Describes "compMod" (Json.At p.comparisonAttributes key
      (Json.At ["old", "new"] member Json.Numbered)) j j'

/-- Two nodes of a part are read as one. -/
def ReadsSame : Partition → Json → Json → Prop
  | tables => fun j j' => Table.ofJson? j = Table.ofJson? j'
  | keyspaces => fun j j' => Keyspace.ofJson? j = Keyspace.ofJson? j'
  | views => fun j j' => View.ofJson? j = View.ofJson? j'
  | userTypes => fun j j' => UserType.ofJson? j = UserType.ofJson? j'

end Partition

section Nodes

variable {key member : String} {R : Json → Json → Prop} {j j' : Json} {es es' : Entries Json}

/-! ### Own names -/

theorem Json.DifferAt.find?_eq {keys : List String} (h : DifferAt key R es es') (hkey : key ∈ keys)
    {k : String} (hk : k ∉ keys) : es.find? k = es'.find? k :=
  h.others k fun heq => hk (heq ▸ hkey)

theorem TableRole.ofJson?_eq (hkey : key ∈ ["code", "name"])
    (h : Json.At attributes key Json.Numbered j j') : ofJson? j = ofJson? j' := by
  refine h.bind_record?_eq fun es es' hdiffer => ?_
  simp (disch := decide) only [hdiffer.find?_eq hkey, hdiffer.label?_eq "code",
    hdiffer.label?_eq "name"]

theorem Keyspace.ofRole?_eq (hkey : key ∈ ["code", "name"])
    (h : Json.At attributes key Json.Numbered j j') : ofRole? j = ofRole? j' := by
  refine h.bind_record?_eq fun es es' hdiffer => ?_
  simp (disch := decide) only [hdiffer.find?_eq hkey, hdiffer.label?_eq "code",
    hdiffer.label?_eq "name"]

theorem View.ofRole?_eq (hkey : key ∈ ["code", "name"])
    (h : Json.At attributes key Json.Numbered j j') : ofRole? j = ofRole? j' := by
  refine h.bind_record?_eq fun es es' hdiffer => ?_
  simp (disch := decide) only [hdiffer.find?_eq hkey, hdiffer.label?_eq "code",
    hdiffer.label?_eq "name"]

theorem UserType.ofJson?_eq (hkey : key ∈ ["code", "name"])
    (h : Json.At attributes key Json.Numbered j j') : ofJson? j = ofJson? j' := by
  refine h.bind_record?_eq fun es es' hdiffer => ?_
  simp (disch := decide) only [hdiffer.find?_eq hkey, hdiffer.label?_eq "code",
    hdiffer.label?_eq "name"]

/-- A part of a record that is read alike leaves the record to be read alike. -/
theorem Json.DifferAt.orDefault_eq {α : Type} {read : Json → Option α}
    (h : DifferAt key R es es') (hread : ∀ j j', R j j' → read j = read j') (default : α) :
    orDefault default read (es.find? key) = orDefault default read (es'.find? key) := by
  obtain ⟨v, v', hv, hv', hR⟩ := h.here
  rw [hv, hv']
  exact hread v v' hR

theorem Partition.readsSame_of_ownNumbered {p : Partition} (h : p.OwnNumbered j j') :
    p.ReadsSame j j' := by
  obtain ⟨key, hkey, h⟩ := h
  cases p with
  | tables =>
    refine Json.At.bind_record?_eq h fun es es' hdiffer => ?_
    have hrole := hdiffer.orDefault_eq (fun _ _ => TableRole.ofJson?_eq hkey) {}
    rw [hrole, hdiffer.others "properties" (by decide)]
  | keyspaces =>
    exact Json.At.bind_record?_eq h fun es es' hdiffer =>
      hdiffer.orDefault_eq (fun _ _ => Keyspace.ofRole?_eq hkey) {}
  | views =>
    exact Json.At.bind_record?_eq h fun es es' hdiffer =>
      hdiffer.orDefault_eq (fun _ _ => View.ofRole?_eq hkey) {}
  | userTypes => exact UserType.ofJson?_eq hkey h

/-! ### Compared names -/

theorem Json.DifferAt.change_eq_none (h : DifferAt key (At ["old", "new"] member Numbered) es es')
    (hmember : member ∈ ["old", "new"]) : textChange? (es'.find? key) = none := by
  obtain ⟨_, _, -, hv', hat⟩ := h.here
  rw [hv']
  exact textChange?_eq_none hmember hat

theorem TableComparison.ofJson?_eq_none (hmember : member ∈ ["old", "new"])
    (hkey : key ∈ ["code", "name", "collectionName"])
    (h : Json.At attributes key (Json.At ["old", "new"] member Json.Numbered) j j') :
    ofJson? j' = none := by
  refine h.bind_record?_eq_none fun es es' hdiffer => ?_
  have hnone := hdiffer.change_eq_none hmember
  have hkey : key = "code" ∨ key = "name" ∨ key = "collectionName" := by simpa using hkey
  rcases hkey with rfl | rfl | rfl <;> simp [hnone]

theorem KeyspaceComparison.ofJson?_eq_none (hmember : member ∈ ["old", "new"])
    (hkey : key ∈ ["code", "name"])
    (h : Json.At attributes key (Json.At ["old", "new"] member Json.Numbered) j j') :
    ofJson? j' = none := by
  refine h.bind_record?_eq_none fun es es' hdiffer => ?_
  have hnone := hdiffer.change_eq_none hmember
  have hkey : key = "code" ∨ key = "name" := by simpa using hkey
  rcases hkey with rfl | rfl <;> simp [hnone]

theorem ViewComparison.ofJson?_eq_none (hmember : member ∈ ["old", "new"])
    (hkey : key ∈ ["code", "name"])
    (h : Json.At attributes key (Json.At ["old", "new"] member Json.Numbered) j j') :
    ofJson? j' = none := by
  refine h.bind_record?_eq_none fun es es' hdiffer => ?_
  have hnone := hdiffer.change_eq_none hmember
  have hkey : key = "code" ∨ key = "name" := by simpa using hkey
  rcases hkey with rfl | rfl <;> simp [hnone]

theorem UserTypeComparison.ofJson?_eq_none (hmember : member ∈ ["old", "new"])
    (hkey : key ∈ ["code", "name"])
    (h : Json.At attributes key (Json.At ["old", "new"] member Json.Numbered) j j') :
    ofJson? j' = none := by
  refine h.bind_record?_eq_none fun es es' hdiffer => ?_
  have hnone := hdiffer.change_eq_none hmember
  have hkey : key = "code" ∨ key = "name" := by simpa using hkey
  rcases hkey with rfl | rfl <;> simp [hnone]

/-- A part of a record that cannot be read cannot be read as an optional one either. -/
theorem Json.DifferAt.optional_eq_none {α : Type} {read : Json → Option α}
    {attributes : List String} {name : String}
    (h : DifferAt key (At attributes name R) es es')
    (hread : ∀ j j', At attributes name R j j' → read j' = none) :
    optional read (es'.find? key) = none := by
  obtain ⟨v, v', -, hv', hat⟩ := h.here
  rw [hv']
  exact Json.optional_eq_none hat.ne_null.2 (hread v v' hat)

theorem Partition.readsSame_null_of_comparedNumbered {p : Partition} (h : p.ComparedNumbered j j') :
    p.ReadsSame j' .null := by
  obtain ⟨key, hkey, member, hmember, h⟩ := h
  cases p with
  | tables =>
    refine Json.At.bind_record?_eq_none h fun es es' hdiffer => ?_
    obtain ⟨_, _, -, hv', hrole⟩ := hdiffer.here
    have hnone : TableRole.ofJson? _ = none := hrole.bind_record?_eq_none fun ds ds' hdiffer => by
      have hcomparison := hdiffer.optional_eq_none fun _ _ =>
        TableComparison.ofJson?_eq_none hmember hkey
      simp [hcomparison]
    simp [hv', Json.orDefault, hnone]
  | keyspaces =>
    refine Json.At.bind_record?_eq_none h fun es es' hdiffer => ?_
    obtain ⟨_, _, -, hv', hrole⟩ := hdiffer.here
    rw [hv']
    refine hrole.bind_record?_eq_none fun ds ds' hdiffer => ?_
    have hcomparison := hdiffer.optional_eq_none fun _ _ =>
      KeyspaceComparison.ofJson?_eq_none hmember hkey
    simp [hcomparison]
  | views =>
    refine Json.At.bind_record?_eq_none h fun es es' hdiffer => ?_
    obtain ⟨_, _, -, hv', hrole⟩ := hdiffer.here
    rw [hv']
    refine hrole.bind_record?_eq_none fun ds ds' hdiffer => ?_
    have hcomparison := hdiffer.optional_eq_none fun _ _ =>
      ViewComparison.ofJson?_eq_none hmember hkey
    simp [hcomparison]
  | userTypes =>
    refine Json.At.bind_record?_eq_none h fun es es' hdiffer => ?_
    have hcomparison := hdiffer.optional_eq_none fun _ _ =>
      UserTypeComparison.ofJson?_eq_none hmember hkey
    simp [hcomparison]

end Nodes

/-! ## Trees with a node in a place -/

namespace ChangeTree

variable {p : Partition} {b : Bucket} {root : Json → Json} {tree : Json → ChangeTree} {j k : Json}

/-- The trees that hold a given node in one place, under a key in a wrapper of a bucket, and are
    otherwise always the same. -/
structure HasPlace (p : Partition) (b : Bucket) (root : Json → Json) (tree : Json → ChangeTree) :
    Prop where
  read : ∀ j, ofJson (root j) = .ok (tree j)
  node : ∃ (key : String) (before after : List Json) (front back : Entries Json), ∀ j, ∃ item,
    (tree j).items p b = before ++ item :: after ∧
      wrapped? item = some (front ++ (key, j) :: back)
  others : ∀ j k q c, q ≠ p ∨ c ≠ b → (tree j).items q c = (tree k).items q c

section Read

variable {α : Type} {read : Json → Option α} {q : Partition} (h : HasPlace p b root tree)
  (hread : q = p → read j = read k)

include h hread

theorem HasPlace.children_eq (c : Bucket) :
    (tree j).children read q c = (tree k).children read q c := by
  rw [children_eq_flatMap, children_eq_flatMap]
  by_cases hplace : q = p ∧ c = b
  · obtain ⟨rfl, rfl⟩ := hplace
    obtain ⟨key, before, after, front, back, hnode⟩ := h.node
    obtain ⟨item, hitems, hw⟩ := hnode j
    obtain ⟨item', hitems', hw'⟩ := hnode k
    have hchild : child? read (key, j) = child? read (key, k) := by
      rw [child?, child?, hread rfl]
    have hnodes : nodesOf read item = nodesOf read item' := by
      simp only [nodesOf, hw, hw', Option.map_some, List.filterMap_append, List.filterMap_cons,
        hchild]
    rw [hitems, hitems', List.flatMap_append, List.flatMap_append, List.flatMap_cons,
      List.flatMap_cons, hnodes]
  · rw [h.others j k q c (by tauto)]

theorem HasPlace.firstChildren_eq (c : Bucket) :
    (tree j).firstChildren read q c = (tree k).firstChildren read q c := by
  rw [firstChildren_eq_filterMap, firstChildren_eq_filterMap]
  by_cases hplace : q = p ∧ c = b
  · obtain ⟨rfl, rfl⟩ := hplace
    obtain ⟨key, before, after, front, back, hnode⟩ := h.node
    obtain ⟨item, hitems, hw⟩ := hnode j
    obtain ⟨item', hitems', hw'⟩ := hnode k
    have hchild : child? read (key, j) = child? read (key, k) := by
      rw [child?, child?, hread rfl]
    have hnode : firstNodeOf? read item = firstNodeOf? read item' := by
      rw [firstNodeOf?, firstNodeOf?, hw, hw']
      cases front with
      | nil => exact hchild
      | cons e front => rfl
    rw [hitems, hitems', List.filterMap_append, List.filterMap_append, List.filterMap_cons,
      List.filterMap_cons, hnode]
  · rw [h.others j k q c (by tauto)]

end Read

theorem HasPlace.sameNodes (h : HasPlace p b root tree) (hread : p.ReadsSame j k) :
    (tree j).SameNodes (tree k) where
  nodes := h.children_eq (by rintro rfl; exact hread)
  first := h.firstChildren_eq (by rintro rfl; exact hread)
  tables := h.children_eq (by rintro rfl; exact hread)
  keyspaces := h.firstChildren_eq (by rintro rfl; exact hread)
  views := h.firstChildren_eq (by rintro rfl; exact hread)

end ChangeTree

/-! ## Scripts -/

namespace Script

/-- Two trees have one script, and both or neither drop anything. -/
def Agree (root root' : Json) : Prop :=
  ∀ (resolver : Resolver) (references : References) (mode : Mode),
    ofTree resolver references mode root = ofTree resolver references mode root' ∧
    compile resolver references mode root = compile resolver references mode root' ∧
    isDestructive resolver references mode root = isDestructive resolver references mode root'

theorem agree_of_sameNodes {t t' : ChangeTree} {root root' : Json} (h : t.SameNodes t')
    (ht : ChangeTree.ofJson root = .ok t) (ht' : ChangeTree.ofJson root' = .ok t') :
    Agree root root' := by
  intro resolver references mode
  have hgenerated := generated_of_sameNodes h ht ht' resolver references mode
  have hofTree : ofTree resolver references mode root = ofTree resolver references mode root' := by
    rw [ofTree, ofTree, hgenerated]
  refine ⟨hofTree, ?_, ?_⟩
  · rw [compile, compile, hofTree]
  · rw [isDestructive, isDestructive, hgenerated]

/-- An own name of a node may be written as a number. With a number for an old or a new name in its
    comparison the node counts as none, whatever else it says. -/
theorem agree_of_numbered {p : Partition} {b : Bucket} {root : Json → Json}
    {tree : Json → ChangeTree} (h : ChangeTree.HasPlace p b root tree) :
    (∀ j j', p.OwnNumbered j j' → Agree (root j) (root j')) ∧
    ∀ j j', p.ComparedNumbered j j' → Agree (root j') (root .null) := by
  constructor
  · intro j j' hnumbered
    have hsame := h.sameNodes (Partition.readsSame_of_ownNumbered hnumbered)
    exact agree_of_sameNodes hsame (h.read j) (h.read j')
  · intro j j' hnumbered
    have hsame := h.sameNodes (Partition.readsSame_null_of_comparedNumbered hnumbered)
    exact agree_of_sameNodes hsame (h.read j') (h.read .null)

/-! ### A table that is named by a year -/

/-- A table with a column, of which the comparison gives the old and the new name. -/
def yearTable (code new : Json) : Json :=
  let role : Json := .obj [("code", code),
    ("compMod", .obj [("keyspaceName", .str "app"),
      ("code", .obj [("old", .str "users"), ("new", new)])])]
  .obj [("role", role), ("properties", .obj [("id", .obj [("type", .str "uuid")])])]

def yearRoot (node : Json) : Json := ChangeTree.rootOf .tables .modified [("users", node)]

def yearTree (node : Json) : ChangeTree := ⟨(yearRoot node).get? "properties"⟩

theorem hasPlace_yearRoot : ChangeTree.HasPlace .tables .modified yearRoot yearTree where
  read _ := rfl
  node := ⟨"users", [], [], [], [], fun j => ⟨ChangeTree.wrapperOf [("users", j)], rfl, rfl⟩⟩
  others j k q c hplace := by
    cases q <;> cases c <;> first | rfl | simp at hplace

/-- The year as a string and as a number. -/
theorem numbered_year : Json.Numbered (.str "2024") (.num (.int 2024)) := ⟨2024, rfl, rfl⟩

theorem ownNumbered_yearTable (new : Json) :
    Partition.tables.OwnNumbered (yearTable (.str "2024") new)
      (yearTable (.num (.int 2024)) new) :=
  ⟨"code", by decide, .head (.head numbered_year)⟩

theorem comparedNumbered_yearTable (code : Json) :
    Partition.tables.ComparedNumbered (yearTable code (.str "2024"))
      (yearTable code (.num (.int 2024))) :=
  ⟨"code", by decide, "new", by decide,
    .head (.tail (by decide) (.head (.tail (by decide) (.head
      (.tail (by decide) (.head numbered_year))))))⟩

/-- A year as the own code of the table changes nothing. As the new name it makes the whole change
    go away, and with it the drop of the table. -/
theorem agree_of_yearTable :
    Agree (yearRoot (yearTable (.str "2024") (.str "2024")))
        (yearRoot (yearTable (.num (.int 2024)) (.str "2024"))) ∧
      Agree (yearRoot (yearTable (.str "2024") (.num (.int 2024)))) (yearRoot .null) ∧
      (ofTree Resolver.builtin .empty {} (yearRoot (yearTable (.str "2024") (.str "2024")))).map
          (List.map Statement.text) = .ok
        ["-- DROP TABLE IF EXISTS \"app\".\"users\";",
          "CREATE TABLE IF NOT EXISTS \"app\".\"2024\" (\n\t\"id\" uuid\n);"] ∧
      ofTree Resolver.builtin .empty {} (yearRoot (yearTable (.str "2024") (.num (.int 2024)))) =
        .ok [] ∧
      isDestructive Resolver.builtin .empty {} (yearRoot (yearTable (.str "2024") (.str "2024"))) =
        .ok true ∧
      isDestructive Resolver.builtin .empty {}
          (yearRoot (yearTable (.str "2024") (.num (.int 2024)))) = .ok false := by
  obtain ⟨hown, hcompared⟩ := agree_of_numbered hasPlace_yearRoot
  exact ⟨hown _ _ (ownNumbered_yearTable _), hcompared _ _ (comparedNumbered_yearTable _), rfl, rfl,
    rfl, rfl⟩

end Script

end AlterScript
