/-
  The indexes of a table that is altered in place.

  An index is dropped and created by its name, and the comparison is between whole definitions. A
  changed index is dropped under its old definition and created under the new one, maybe under one
  name, so the order of the script counts. `IndexSet.exists_run_of_leads` executes any list that
  drops before it creates; `Script.run_indexes_of_altered` is about the index statements of a table
  as they stand in a script.
-/
import AlterScript.Proofs.Answers
import AlterScript.Proofs.ColumnStatements
import AlterScript.Proofs.ScriptOrder
import AlterScript.Proofs.TruthfulTags

namespace AlterScript

/-! ## Execution -/

namespace Command

/-- The secondary indexes of a table after a command. The name of an index is one in the keyspace of
    its table. None is created under a name that is taken, and one that is not there is not
    dropped. -/
def secondaryAfter (q : QualifiedName) (indexes : List Index) : Command → List Index
  | createIndex t x =>
    if t = q ∧ x.name ∉ indexes.map Index.name then indexes ++ [x] else indexes
  | dropIndex keyspace name =>
    if QualifiedName.of keyspace name = QualifiedName.of q.keyspace name then
      indexes.filter (·.name ≠ name)
    else indexes
  | _ => indexes

/-- The columns of the search index of a table after a command. A second search index is not
    created, and it is an error to drop one that is not there. -/
def searchAfter (q : QualifiedName) (columns : List String) : Command → Option (List String)
  | createSearchIndex t new => some (if t = q ∧ columns = [] then new else columns)
  | dropSearchIndex t =>
    if t = q then if columns = [] then none else some [] else some columns
  | _ => some columns

/-- The commands as their statements stand in a script. -/
def arranged (cs : List Command) (script : List Statement) : List Command :=
  script.filterMap fun st => cs.find? (·.statement = st)

/-- A command for the indexes of a table. -/
inductive OnIndexes (q : QualifiedName) : Command → Prop
  | create (x : Index) : OnIndexes q (createIndex q x)
  | drop (name : String) : OnIndexes q (dropIndex q.keyspace name)
  | createSearch (columns : List String) : OnIndexes q (createSearchIndex q columns)
  | dropSearch : OnIndexes q (dropSearchIndex q)

theorem OnIndexes.level_eq {q : QualifiedName} {c : Command} (h : c.OnIndexes q) :
    c.level = .index := by
  cases h <;> rfl

/-- The index that a command creates. -/
def created? : Command → Option Index
  | createIndex _ x => some x
  | _ => none

theorem created?_eq_some_iff {q : QualifiedName} {c : Command} (h : c.OnIndexes q) {x : Index} :
    c.created? = some x ↔ c = createIndex q x := by
  cases h <;> simp [created?]

/-- No command that creates stands before one that drops. -/
def DropsFirst (cs : List Command) : Prop :=
  cs.Pairwise fun c d => c.action = .add → d.action ≠ .drop

end Command

namespace IndexSet

/-- The indexes of a table after commands that are executed one after the other. -/
def run (q : QualifiedName) : List Command → IndexSet → Option IndexSet
  | [], i => some i
  | c :: cs, i =>
    (c.searchAfter q i.search).bind fun search =>
      run q cs ⟨c.secondaryAfter q i.secondary, search⟩

/-- Secondary indexes and the search index do not get into each other's way. -/
theorem run_eq (q : QualifiedName) (cs : List Command) (i : IndexSet) :
    run q cs i = (cs.foldlM (Command.searchAfter q) i.search).map fun search =>
      ⟨cs.foldl (Command.secondaryAfter q) i.secondary, search⟩ := by
  induction cs generalizing i with
  | nil => rfl
  | cons c cs ih =>
    rw [run, List.foldlM_cons, List.foldl_cons]
    cases c.searchAfter q i.search with
    | none => rfl
    | some search => exact ih _

end IndexSet

/-! ## Drops first -/

namespace Command

variable {q : QualifiedName}

/-- What is left of the indexes when those are dropped that commands name. -/
def kept (q : QualifiedName) (cs : List Command) (indexes : List Index) : List Index :=
  indexes.filter fun x => dropIndex q.keyspace x.name ∉ cs

theorem kept_eq_self {cs : List Command} {indexes : List Index}
    (h : ∀ x ∈ indexes, dropIndex q.keyspace x.name ∉ cs) : kept q cs indexes = indexes :=
  List.filter_eq_self.2 fun x hx => decide_eq_true (h x hx)

theorem kept_cons_of_ne {c : Command} {cs : List Command} {indexes : List Index}
    (h : ∀ name, dropIndex q.keyspace name ≠ c) : kept q (c :: cs) indexes = kept q cs indexes :=
  List.filter_congr fun x _ => by simp [h x.name]

/-- After the first command that creates, nothing is dropped. -/
theorem DropsFirst.notMem_of_add {c : Command} {cs : List Command} (h : DropsFirst (c :: cs))
    (hc : c.action = .add) {d : Command} (hd : d.action = .drop) : d ∉ c :: cs := by
  intro hmem
  rcases List.mem_cons.1 hmem with rfl | hmem
  · rw [hc] at hd
    exact Action.noConfusion hd
  · exact (List.pairwise_cons.1 h).1 d hmem hc hd

/-- The indexes that are not named by a drop stay, and those that are created come to them, if their
    names are free. -/
theorem foldl_secondaryAfter {cs : List Command} (hon : ∀ c ∈ cs, OnIndexes q c)
    (hfirst : DropsFirst cs) {indexes : List Index}
    (hcreated : ((cs.filterMap created?).map Index.name).Nodup)
    (hfree : ∀ x ∈ kept q cs indexes, ∀ y ∈ cs.filterMap created?, x.name ≠ y.name) :
    cs.foldl (secondaryAfter q) indexes = kept q cs indexes ++ cs.filterMap created? := by
  induction cs generalizing indexes with
  | nil => simp [kept]
  | cons c cs ih =>
    obtain ⟨hc, hrest⟩ := List.forall_mem_cons.1 hon
    have hlater : DropsFirst cs := (List.pairwise_cons.1 hfirst).2
    rw [List.foldl_cons]
    cases hc with
    | drop name =>
      have hkept : kept q cs (indexes.filter (·.name ≠ name)) =
          kept q (dropIndex q.keyspace name :: cs) indexes := by
        rw [kept, kept, List.filter_filter]
        refine List.filter_congr fun x _ => ?_
        by_cases hx : x.name = name <;> simp [hx]
      rw [secondaryAfter, if_pos rfl, ih hrest hlater hcreated (by rwa [hkept]), hkept]
      rfl
    | create x =>
      -- Nothing is dropped from here on, so all indexes are kept.
      have hnone : ∀ y ∈ indexes ++ [x], dropIndex q.keyspace y.name ∉ createIndex q x :: cs :=
        fun y _ => hfirst.notMem_of_add rfl rfl
      have hall := kept_eq_self fun y hy => hnone y (List.mem_append_left _ hy)
      have hnext := kept_eq_self fun y hy h => hnone y hy (List.mem_cons_of_mem _ h)
      rw [hall] at hfree ⊢
      obtain ⟨hx, hcreated⟩ := List.nodup_cons.1 hcreated
      have hnew : x.name ∉ indexes.map Index.name := by
        intro hmem
        obtain ⟨y, hy, hname⟩ := List.mem_map.1 hmem
        exact hfree y hy x (.head _) hname
      have hfree' : ∀ y ∈ kept q cs (indexes ++ [x]), ∀ z ∈ cs.filterMap created?,
          y.name ≠ z.name := by
        rw [hnext]
        intro y hy z hz
        rcases List.mem_append.1 hy with hy | hy
        · exact hfree y hy z (.tail _ hz)
        · obtain rfl := List.mem_singleton.1 hy
          exact fun hname => hx (hname ▸ List.mem_map_of_mem hz)
      rw [secondaryAfter, if_pos ⟨rfl, hnew⟩, ih hrest hlater hcreated hfree', hnext,
        List.append_assoc]
      rfl
    | createSearch columns | dropSearch =>
      rw [kept_cons_of_ne fun _ h => Command.noConfusion h] at hfree ⊢
      exact ih hrest hlater hcreated hfree

/-- A search index that is there is dropped at most once, and only one is created, when there is no
    other. -/
theorem foldlM_searchAfter {cs : List Command} (hon : ∀ c ∈ cs, OnIndexes q c)
    (hfirst : DropsFirst cs) (hnodup : cs.Nodup) (new : List String) {columns : List String}
    (hdrop : dropSearchIndex q ∈ cs → columns ≠ [])
    (hcreate : ∀ other, createSearchIndex q other ∈ cs →
      other = new ∧ (dropSearchIndex q ∈ cs ∨ columns = [] ∨ columns = new)) :
    cs.foldlM (searchAfter q) columns =
      some (if createSearchIndex q new ∈ cs then new
        else if dropSearchIndex q ∈ cs then [] else columns) := by
  induction cs generalizing columns with
  | nil => rfl
  | cons c cs ih =>
    obtain ⟨hc, hrest⟩ := List.forall_mem_cons.1 hon
    have hlater : DropsFirst cs := (List.pairwise_cons.1 hfirst).2
    obtain ⟨hhead, honce⟩ := List.nodup_cons.1 hnodup
    rw [List.foldlM_cons]
    cases hc with
    | dropSearch =>
      rw [searchAfter, if_pos rfl, if_neg (hdrop (.head _)), Option.bind_eq_bind, Option.bind_some,
        ih hrest hlater honce (fun h => absurd h hhead) fun other h =>
          ⟨(hcreate other (.tail _ h)).1, .inr (.inl rfl)⟩]
      simp [hhead]
    | createSearch other =>
      have hnone : dropSearchIndex q ∉ createSearchIndex q other :: cs :=
        hfirst.notMem_of_add rfl rfl
      obtain ⟨rfl, hcolumns⟩ := hcreate other (.head _)
      have hafter : searchAfter q columns (createSearchIndex q other) = some other := by
        rcases hcolumns with h | rfl | rfl
        · exact absurd h hnone
        · rw [searchAfter, if_pos ⟨rfl, rfl⟩]
        · rw [searchAfter, ite_self]
      have hnone' : dropSearchIndex q ∉ cs := fun h => hnone (.tail _ h)
      rw [hafter, Option.bind_eq_bind, Option.bind_some,
        ih hrest hlater honce (fun h => absurd h hnone') fun other' h =>
          ⟨(hcreate other' (.tail _ h)).1, .inr (.inr rfl)⟩]
      simp [hnone']
    | create x | drop name =>
      show cs.foldlM (searchAfter q) columns = _
      rw [ih hrest hlater honce (fun h => hdrop (.tail _ h)) fun other h => by
        simpa using hcreate other (.tail _ h)]
      simp

end Command

/-! ## From one set of indexes to another -/

namespace IndexSet

variable {q : QualifiedName} {old new : IndexSet} {cs : List Command}

theorem mem_drops_iff {i : IndexSet} {c : Command} :
    c ∈ i.drops q ↔ (∃ x ∈ i.secondary, c = .dropIndex q.keyspace x.name) ∨
      i.search ≠ [] ∧ c = .dropSearchIndex q := by
  rw [drops, List.mem_append, List.mem_map]
  by_cases h : i.search = [] <;> simp [h, eq_comm (a := c)]

theorem mem_creations_iff {i : IndexSet} {c : Command} :
    c ∈ i.creations q ↔ (∃ x ∈ i.secondary, c = .createIndex q x) ∨
      i.search ≠ [] ∧ c = .createSearchIndex q i.search := by
  rw [creations, List.mem_append, List.mem_map]
  by_cases h : i.search = [] <;> simp [h, eq_comm (a := c)]

theorem mem_minus_secondary_iff {x : Index} :
    x ∈ (old.minus new).secondary ↔ x ∈ old.secondary ∧ x ∉ new.secondary := by
  simp [minus]

theorem minus_search_ne_nil_iff :
    (old.minus new).search ≠ [] ↔ old.search ≠ new.search ∧ old.search ≠ [] := by
  by_cases h : old.search = new.search <;> simp [minus, h]

theorem minus_search_eq (h : old.search ≠ new.search) : (old.minus new).search = old.search :=
  if_neg h

/-- The same indexes; those of a table are in no order. -/
structure Same (i j : IndexSet) : Prop where
  secondary : i.secondary.Perm j.secondary
  search : i.search = j.search

/-- Commands that leave alone what is in both sets: they drop no index of its name and create no
    index under its name. -/
structure Keeps (old new : IndexSet) (cs : List Command) : Prop where
  secondary : ∀ x ∈ old.secondary, x ∈ new.secondary →
    (∀ keyspace, .dropIndex keyspace x.name ∉ cs) ∧
    ∀ table y, y.name = x.name → .createIndex table y ∉ cs
  search : old.search = new.search → ∀ table,
    .dropSearchIndex table ∉ cs ∧ ∀ columns, .createSearchIndex table columns ∉ cs

/-- The commands for the difference between two sets of indexes, each once, and drops first. -/
structure Leads (q : QualifiedName) (old new : IndexSet) (cs : List Command) : Prop where
  mem_iff : ∀ c, c ∈ cs ↔ c ∈ (old.minus new).drops q ++ (new.minus old).creations q
  nodup : cs.Nodup
  dropsFirst : Command.DropsFirst cs

theorem onIndexes_of_mem {a b : IndexSet} {c : Command} (h : c ∈ a.drops q ++ b.creations q) :
    c.OnIndexes q := by
  rcases List.mem_append.1 h with h | h
  · rcases mem_drops_iff.1 h with ⟨x, _, rfl⟩ | ⟨_, rfl⟩
    · exact .drop x.name
    · exact .dropSearch
  · rcases mem_creations_iff.1 h with ⟨x, _, rfl⟩ | ⟨_, rfl⟩
    · exact .create x
    · exact .createSearch b.search

namespace Leads

theorem onIndexes (h : Leads q old new cs) {c : Command} (hc : c ∈ cs) : c.OnIndexes q :=
  onIndexes_of_mem ((h.mem_iff c).1 hc)

theorem dropIndex_mem_iff (h : Leads q old new cs) {name : String} :
    .dropIndex q.keyspace name ∈ cs ↔ ∃ x ∈ old.secondary, x ∉ new.secondary ∧ x.name = name := by
  rw [h.mem_iff, List.mem_append, mem_drops_iff, mem_creations_iff]
  simp [mem_minus_secondary_iff, and_assoc, eq_comm (a := name)]

theorem createIndex_mem_iff (h : Leads q old new cs) {x : Index} :
    .createIndex q x ∈ cs ↔ x ∈ new.secondary ∧ x ∉ old.secondary := by
  rw [h.mem_iff, List.mem_append, mem_drops_iff, mem_creations_iff]
  simp [mem_minus_secondary_iff]

theorem dropSearchIndex_mem_iff (h : Leads q old new cs) :
    .dropSearchIndex q ∈ cs ↔ old.search ≠ new.search ∧ old.search ≠ [] := by
  rw [h.mem_iff, List.mem_append, mem_drops_iff, mem_creations_iff, minus_search_ne_nil_iff]
  simp

theorem createSearchIndex_mem_iff (h : Leads q old new cs) {columns : List String} :
    .createSearchIndex q columns ∈ cs ↔
      columns = new.search ∧ new.search ≠ old.search ∧ new.search ≠ [] := by
  rw [h.mem_iff, List.mem_append, mem_drops_iff, mem_creations_iff, minus_search_ne_nil_iff]
  by_cases hsearch : new.search = old.search
  · simp [minus, hsearch]
  · rw [minus_search_eq hsearch]
    simp [hsearch, and_comm]

/-- The search index that is there afterwards. -/
theorem foldlM_searchAfter (h : Leads q old new cs) :
    cs.foldlM (Command.searchAfter q) old.search = some new.search := by
  rw [Command.foldlM_searchAfter (fun c hc => h.onIndexes hc) h.dropsFirst h.nodup new.search
    (fun hdrop => (h.dropSearchIndex_mem_iff.1 hdrop).2) fun other hother => ?_]
  · simp only [h.createSearchIndex_mem_iff, h.dropSearchIndex_mem_iff, true_and]
    by_cases hsearch : old.search = new.search
    · simp [hsearch]
    · by_cases hnew : new.search = []
      · simp [hnew]
      · simp [hnew, Ne.symm hsearch]
  · obtain ⟨rfl, hsearch, _⟩ := h.createSearchIndex_mem_iff.1 hother
    refine ⟨rfl, ?_⟩
    by_cases hold : old.search = []
    · exact .inr (.inl hold)
    · exact .inl (h.dropSearchIndex_mem_iff.2 ⟨hsearch.symm, hold⟩)

theorem mem_created_iff (h : Leads q old new cs) {x : Index} :
    x ∈ cs.filterMap Command.created? ↔ x ∈ new.secondary ∧ x ∉ old.secondary := by
  rw [← h.createIndex_mem_iff, List.mem_filterMap]
  constructor
  · rintro ⟨c, hc, hx⟩
    exact (Command.created?_eq_some_iff (h.onIndexes hc)).1 hx ▸ hc
  · exact fun hx => ⟨_, hx, rfl⟩

theorem nodup_created (h : Leads q old new cs) : (cs.filterMap Command.created?).Nodup := by
  refine (List.pairwise_filterMap).2 (h.nodup.imp_of_mem fun hc hd hne x hx y hy => ?_)
  rintro rfl
  rw [Command.created?_eq_some_iff (h.onIndexes hc)] at hx
  rw [Command.created?_eq_some_iff (h.onIndexes hd)] at hy
  exact hne (hx.trans hy.symm)

/-- With distinct names, an index is kept exactly if it is there afterwards. -/
theorem mem_kept_iff (h : Leads q old new cs) (hold : (old.secondary.map Index.name).Nodup)
    {x : Index} :
    x ∈ Command.kept q cs old.secondary ↔ x ∈ old.secondary ∧ x ∈ new.secondary := by
  rw [Command.kept, List.mem_filter, decide_eq_true_eq, h.dropIndex_mem_iff]
  refine and_congr_right fun hx => ⟨fun hkept => ?_, ?_⟩
  · by_contra hgone
    exact hkept ⟨x, hx, hgone, rfl⟩
  · rintro hstays ⟨y, hy, hgone, hname⟩
    exact hgone (List.inj_on_of_nodup_map hold hy hx hname ▸ hstays)

/-- The secondary indexes that are there afterwards. -/
theorem perm_foldl_secondaryAfter (h : Leads q old new cs)
    (hold : (old.secondary.map Index.name).Nodup) (hnew : (new.secondary.map Index.name).Nodup) :
    (cs.foldl (Command.secondaryAfter q) old.secondary).Perm new.secondary := by
  have hcreated : ((cs.filterMap Command.created?).map Index.name).Nodup := by
    refine h.nodup_created.map_on fun x hx y hy hname => ?_
    exact List.inj_on_of_nodup_map hnew (h.mem_created_iff.1 hx).1 (h.mem_created_iff.1 hy).1 hname
  have hfree : ∀ x ∈ Command.kept q cs old.secondary, ∀ y ∈ cs.filterMap Command.created?,
      x.name ≠ y.name := by
    intro x hx y hy hname
    obtain ⟨hxold, hxnew⟩ := (h.mem_kept_iff hold).1 hx
    obtain ⟨hynew, hyold⟩ := h.mem_created_iff.1 hy
    exact hyold (List.inj_on_of_nodup_map hnew hxnew hynew hname ▸ hxold)
  rw [Command.foldl_secondaryAfter (fun c hc => h.onIndexes hc) h.dropsFirst hcreated hfree]
  have hnodup : (Command.kept q cs old.secondary ++ cs.filterMap Command.created?).Nodup := by
    refine List.nodup_append.2 ⟨hold.of_map.filter _, h.nodup_created, fun x hx y hy => ?_⟩
    exact fun heq => hfree x hx y hy (congrArg Index.name heq)
  refine (List.perm_ext_iff_of_nodup hnodup hnew.of_map).2 fun x => ?_
  rw [List.mem_append, h.mem_kept_iff hold, h.mem_created_iff]
  tauto

/-- Where no secondary index changes, all stay, whatever their names. -/
theorem foldl_secondaryAfter_of_eq (h : Leads q old new cs) (heq : old.secondary = new.secondary) :
    cs.foldl (Command.secondaryAfter q) old.secondary = new.secondary := by
  have hcreated : cs.filterMap Command.created? = [] := by
    refine List.eq_nil_iff_forall_not_mem.2 fun x hx => ?_
    obtain ⟨hnew, hold⟩ := h.mem_created_iff.1 hx
    exact hold (heq ▸ hnew)
  have hkept : Command.kept q cs old.secondary = old.secondary := by
    refine Command.kept_eq_self fun x _ hdrop => ?_
    obtain ⟨y, hold, hnew, _⟩ := h.dropIndex_mem_iff.1 hdrop
    exact hnew (heq ▸ hold)
  rw [Command.foldl_secondaryAfter (fun c hc => h.onIndexes hc) h.dropsFirst (by simp [hcreated])
    (by simp [hcreated]), hcreated, hkept, List.append_nil, heq]

end Leads

/-- Names tell indexes apart on either side, or no secondary index changes. -/
def Distinct (old new : IndexSet) : Prop :=
  old.secondary = new.secondary ∨
    (old.secondary.map Index.name).Nodup ∧ (new.secondary.map Index.name).Nodup

/-- The commands for a difference can be executed on the old indexes, and the new ones are there
    afterwards. -/
theorem exists_run_of_leads (h : Leads q old new cs) (hnames : Distinct old new) :
    ∃ result, run q cs old = some result ∧ result.Same new := by
  refine ⟨⟨cs.foldl (Command.secondaryAfter q) old.secondary, new.search⟩, ?_, ?_, rfl⟩
  · rw [run_eq, h.foldlM_searchAfter, Option.map_some]
  · rcases hnames with heq | ⟨hold, hnew⟩
    · rw [h.foldl_secondaryAfter_of_eq heq]
    · exact h.perm_foldl_secondaryAfter hold hnew

/-- They leave alone what is in both sets. -/
theorem keeps_of_leads (h : Leads q old new cs) (hnames : Distinct old new) {own : List Command}
    (hown : ∀ c ∈ own, c.level = .index → c ∈ cs) : Keeps old new own := by
  refine ⟨fun x hxold hxnew => ⟨fun keyspace hdrop => ?_, fun table y hname hcreate => ?_⟩,
    fun hsearch table => ⟨fun hdrop => ?_, fun columns hcreate => ?_⟩⟩
  · have hmem := hown _ hdrop rfl
    cases h.onIndexes hmem
    obtain ⟨y, hyold, hynew, hname⟩ := h.dropIndex_mem_iff.1 hmem
    rcases hnames with heq | ⟨hold, _⟩
    · exact hynew (heq ▸ hyold)
    · exact hynew (List.inj_on_of_nodup_map hold hyold hxold hname ▸ hxnew)
  · have hmem := hown _ hcreate rfl
    cases h.onIndexes hmem
    obtain ⟨hynew, hyold⟩ := h.createIndex_mem_iff.1 hmem
    rcases hnames with heq | ⟨_, hnew⟩
    · exact hyold (heq ▸ hynew)
    · exact hyold (List.inj_on_of_nodup_map hnew hynew hxnew hname ▸ hxold)
  · have hmem := hown _ hdrop rfl
    cases h.onIndexes hmem
    exact (h.dropSearchIndex_mem_iff.1 hmem).1 hsearch
  · have hmem := hown _ hcreate rfl
    cases h.onIndexes hmem
    exact (h.createSearchIndex_mem_iff.1 hmem).2.1 hsearch.symm

end IndexSet

/-! ## Statements -/

namespace Command

variable {q : QualifiedName} {cs : List Command} {script : List Statement}

/-- Other indexes have other texts than the search index. -/
theorem text_createIndex_ne (t q : QualifiedName) (x : Index) (columns : List String) :
    (createIndex t x).text ≠ (createSearchIndex q columns).text := by
  intro h
  have hindex : Text.Begins "CREATE INDEX " (createIndex t x).text :=
    .appends (by decide) [_, _, _, _, _, _]
  have hsearch : Text.Begins "CREATE SEARCH " (createSearchIndex q columns).text :=
    .appends (by decide) [_, _, _]
  rw [h] at hindex
  rcases List.prefix_or_prefix_of_prefix hindex hsearch with h | h
  · exact absurd h (by decide)
  · exact absurd h (by decide)

/-- The statement of a command for the indexes of a table tells the command, except for the columns
    of a search index: these are written without quotes. -/
theorem OnIndexes.eq_of_statement_eq {c d : Command} (hc : c.OnIndexes q) (hd : d.OnIndexes q)
    (h : c.statement = d.statement) :
    c = d ∨ ∃ columns other, c = createSearchIndex q columns ∧ d = createSearchIndex q other := by
  have hplain : ∀ c : Command, c.OnIndexes q → c.isPlain = true ∨ ∃ columns,
      c = createSearchIndex q columns := by
    intro c hc
    cases hc with
    | createSearch columns => exact .inr ⟨columns, rfl⟩
    | create x | drop name | dropSearch => exact .inl rfl
  have htext : c.text = d.text := congrArg Statement.text h
  have haction : c.action = d.action := congrArg Statement.action h
  rcases hplain c hc with hcp | ⟨columns, rfl⟩
  · rcases hplain d hd with hdp | ⟨other, rfl⟩
    · left
      have hwritten := (text_eq_iff hcp hdp).1 htext
      cases hc <;> cases hd <;> simp_all [written]
    · cases hc with
      | create x => exact absurd htext (text_createIndex_ne _ _ _ _)
      | createSearch columns => exact .inr ⟨columns, other, rfl, rfl⟩
      | drop name | dropSearch => cases haction
  · cases hd with
    | create x => exact absurd htext.symm (text_createIndex_ne _ _ _ _)
    | createSearch other => exact .inr ⟨columns, other, rfl, rfl⟩
    | drop name | dropSearch => cases haction

/-- What is arranged are the statements of the script that are for one of the commands. -/
theorem map_statement_arranged (cs : List Command) (script : List Statement) :
    (arranged cs script).map statement = script.filter (· ∈ cs.map statement) := by
  induction script with
  | nil => rfl
  | cons st script ih =>
    rw [arranged, List.filterMap_cons, ← arranged]
    cases hfind : cs.find? (·.statement = st) with
    | none =>
      have hnone : st ∉ cs.map statement := by
        intro hst
        obtain ⟨c, hc, rfl⟩ := List.mem_map.1 hst
        simpa using List.find?_eq_none.1 hfind c hc
      rw [List.filter_cons_of_neg (by simpa using hnone)]
      exact ih
    | some c =>
      have hc : c.statement = st := by simpa using List.find?_some hfind
      have hmem : st ∈ cs.map statement :=
        List.mem_map.2 ⟨c, List.mem_of_find?_eq_some hfind, hc⟩
      rw [List.filter_cons_of_pos (by simpa using hmem), List.map_cons, hc, ih]

theorem mem_of_mem_arranged {c : Command} (h : c ∈ arranged cs script) : c ∈ cs := by
  obtain ⟨st, _, hfind⟩ := List.mem_filterMap.1 h
  exact List.mem_of_find?_eq_some hfind

/-- Where a statement tells its command, the commands are arranged of which the statements are in
    the script. -/
theorem mem_arranged_iff (hinj : ∀ c ∈ cs, ∀ d ∈ cs, c.statement = d.statement → c = d)
    {c : Command} : c ∈ arranged cs script ↔ c ∈ cs ∧ c.statement ∈ script := by
  constructor
  · intro h
    have hst : c.statement ∈ (arranged cs script).map statement := List.mem_map_of_mem h
    rw [map_statement_arranged] at hst
    exact ⟨mem_of_mem_arranged h, (List.mem_filter.1 hst).1⟩
  · rintro ⟨hc, hst⟩
    have hmem : c.statement ∈ (arranged cs script).map statement := by
      rw [map_statement_arranged]
      exact List.mem_filter.2 ⟨hst, by simpa using ⟨c, hc, rfl⟩⟩
    obtain ⟨d, hd, heq⟩ := List.mem_map.1 hmem
    exact hinj d (mem_of_mem_arranged hd) c hc heq ▸ hd

theorem rank_of_level_index {c : Command} (h : c.level = .index) :
    Script.rank c.statement = if c.action = .drop then 3 else 14 := by
  cases c <;> first | rfl | cases h

/-- In a script, indexes are dropped before others are created. -/
theorem dropsFirst_arranged (hlevel : ∀ c ∈ cs, c.level = .index)
    (hranked : script.Pairwise fun a b => Script.rank a ≤ Script.rank b) :
    DropsFirst (arranged cs script) := by
  have hsorted : ((arranged cs script).map statement).Pairwise
      fun a b => Script.rank a ≤ Script.rank b := by
    rw [map_statement_arranged]
    exact hranked.filter _
  refine (List.pairwise_map.1 hsorted).imp_of_mem fun hc hd hle hadd hdrop => ?_
  rw [rank_of_level_index (hlevel _ (mem_of_mem_arranged hc)),
    rank_of_level_index (hlevel _ (mem_of_mem_arranged hd)), if_pos hdrop, hadd] at hle
  exact absurd hle (by decide)

end Command

namespace IndexSet

variable {q : QualifiedName} {old new : IndexSet}

/-- Among the commands for a difference, just one creates a search index, so the statement of each
    tells the command. -/
theorem eq_of_statement_eq {a b : IndexSet} {c d : Command} (hc : c ∈ a.drops q ++ b.creations q)
    (hd : d ∈ a.drops q ++ b.creations q) (h : c.statement = d.statement) : c = d := by
  have hsearch : ∀ columns, .createSearchIndex q columns ∈ a.drops q ++ b.creations q →
      columns = b.search := by
    intro columns hmem
    rcases List.mem_append.1 hmem with hmem | hmem
    · rcases mem_drops_iff.1 hmem with ⟨_, _, heq⟩ | ⟨_, heq⟩ <;> cases heq
    · rcases mem_creations_iff.1 hmem with ⟨_, _, heq⟩ | ⟨_, heq⟩
      · cases heq
      · exact (Command.createSearchIndex.inj heq).2
  rcases (onIndexes_of_mem hc).eq_of_statement_eq (onIndexes_of_mem hd) h with
    h | ⟨columns, other, rfl, rfl⟩
  · exact h
  · rw [hsearch columns hc, hsearch other hd]

/-- The commands for a difference, arranged in a script that has their statements. -/
theorem leads_arranged {script : List Statement}
    (hmem : ∀ c ∈ (old.minus new).drops q ++ (new.minus old).creations q, c.statement ∈ script)
    (hnodup : script.Nodup)
    (hranked : script.Pairwise fun a b => Script.rank a ≤ Script.rank b) :
    Leads q old new
      (Command.arranged ((old.minus new).drops q ++ (new.minus old).creations q) script) := by
  refine ⟨fun c => ?_, ?_, ?_⟩
  · rw [Command.mem_arranged_iff fun c hc d hd => eq_of_statement_eq hc hd]
    exact and_iff_left_of_imp (hmem c)
  · have hstatements := hnodup.filter (· ∈ List.map Command.statement
      ((old.minus new).drops q ++ (new.minus old).creations q))
    rw [← Command.map_statement_arranged] at hstatements
    exact hstatements.of_map
  · exact Command.dropsFirst_arranged (fun c hc => (onIndexes_of_mem hc).level_eq) hranked

end IndexSet

/-! ## Tables -/

namespace Table

variable {s : Scope} {d : Direction} {key : String} {t : Table} {c : TableComparison}

/-- The indexes on one side of the comparison; those that it says nothing of are as the table is
    described. -/
def indexesOn (t : Table) (ids : ColumnIds) (table : String)
    (side : {α : Type} → Change α → Option α) : IndexSet where
  secondary := indexesOf ids table (t.indexChange.elim t.role.indexes fun c => (side c).getD [])
  search := ids.resolveAll (t.searchChange.elim t.role.searchColumns fun c => (side c).getD [])

/-- What is not compared does not differ. -/
theorem minus_comparedIndexes (t : Table) (ids : ColumnIds) (table : String)
    (side other : {α : Type} → Change α → Option α) :
    (t.comparedIndexes ids table side).minus (t.comparedIndexes ids table other) =
      (t.indexesOn ids table side).minus (t.indexesOn ids table other) := by
  cases hindexes : t.indexChange <;> cases hsearch : t.searchChange <;>
    simp [IndexSet.minus, comparedIndexes, indexesOn, indexesOf, ColumnIds.resolveAll, hindexes,
      hsearch]

theorem alterIndexes_eq (t : Table) (ids : ColumnIds) (q : QualifiedName) :
    t.alterIndexes ids q =
      ((t.indexesOn ids q.name Change.old).minus (t.indexesOn ids q.name Change.new)).drops q ++
      ((t.indexesOn ids q.name Change.new).minus
        (t.indexesOn ids q.name Change.old)).creations q := by
  rw [alterIndexes, minus_comparedIndexes, minus_comparedIndexes]

/-- A table that is altered: it is compared, it is neither new nor deleted, and nothing asks for it
    to be created anew. -/
structure Altered (s : Scope) (t : Table) (c : TableComparison) : Prop where
  comparison : t.role.comparison = some c
  deleted : c.deleted = false
  created : c.created = false
  kept : t.isReplaced c (t.columnIds s.definitions) = false

/-- The commands of an altered table: for its options, for its indexes, and for its columns. -/
theorem commands_of_altered (h : t.Altered s c) {own : List Command}
    (hown : t.commands s d key = .ok own) :
    ∃ clauses columns,
      own = .alterTableOptions (QualifiedName.of c.keyspace (t.label key)) clauses ::
        t.alterIndexes (t.columnIds s.definitions) (QualifiedName.of c.keyspace (t.label key)) ++
        columns ∧ ∀ x ∈ columns, x.level = .field := by
  simp only [commands, h.comparison, h.deleted, h.created, update, h.kept, Bool.false_eq_true,
    if_false] at hown
  split at hown
  · exact ⟨_, [], (Except.ok.inj hown).symm, fun x hx => absurd hx List.not_mem_nil⟩
  · obtain ⟨columns, hcolumns, hown⟩ := bind_eq_ok_iff.1 hown
    refine ⟨_, columns, (Except.ok.inj hown).symm, fun x hx => ?_⟩
    obtain ⟨a, rfl⟩ := exists_alteration_of_mem_columns hcolumns hx
    exact Command.level_command _ a

/-- The commands of an altered table for its indexes. -/
theorem indexCommands_of_altered (h : t.Altered s c) {own : List Command}
    (hown : t.commands s d key = .ok own) :
    own.filter (·.level = .index) =
      t.alterIndexes (t.columnIds s.definitions) (QualifiedName.of c.keyspace (t.label key)) := by
  obtain ⟨clauses, columns, rfl, hcolumns⟩ := commands_of_altered h hown
  have hnone : columns.filter (·.level = .index) = [] :=
    List.filter_eq_nil_iff.2 fun x hx => by simp [hcolumns x hx]
  rw [List.filter_append, hnone, List.append_nil, List.filter_cons_of_neg (by simp [Command.level])]
  exact List.filter_eq_self.2 fun x hx => by simp [level_of_mem_alterIndexes hx]

/-- The indexes of a table before the change. -/
def indexesBefore (s : Scope) (key : String) (t : Table) : IndexSet :=
  t.indexesOn (t.columnIds s.definitions) (t.label key) Change.old

/-- The indexes of a table after the change. -/
def indexesAfter (s : Scope) (key : String) (t : Table) : IndexSet :=
  t.indexesOn (t.columnIds s.definitions) (t.label key) Change.new

/-- The secondary indexes that are compared have names of their own, before and after. -/
structure NamedApart (s : Scope) (key : String) (t : Table) : Prop where
  before : ((t.comparedIndexes (t.columnIds s.definitions) (t.label key)
    Change.old).secondary.map Index.name).Nodup
  after : ((t.comparedIndexes (t.columnIds s.definitions) (t.label key)
    Change.new).secondary.map Index.name).Nodup

/-- What is not compared is the same before and after, whatever the names. -/
theorem NamedApart.distinct (h : t.NamedApart s key) :
    IndexSet.Distinct (t.indexesBefore s key) (t.indexesAfter s key) := by
  cases hchange : t.indexChange with
  | none =>
    left
    simp only [indexesBefore, indexesAfter, indexesOn, hchange, Option.elim_none]
  | some change =>
    right
    have hbefore := h.before
    have hafter := h.after
    simp only [comparedIndexes, hchange, Option.bind_some] at hbefore hafter
    simp only [indexesBefore, indexesAfter, indexesOn, hchange, Option.elim_some]
    exact ⟨hbefore, hafter⟩

end Table

namespace Script

/-- The indexes of a table that is altered in place. With drops applied, the index statements of the
    table can be executed on the old indexes in the order of the script, and just the new ones are
    there afterwards; an index that stays as it is is neither dropped nor created. There is a script
    if the resolver always answers. -/
theorem run_indexes_of_altered (resolver : Resolver) (references : References) (mode : Mode)
    {root : Json} {t : ChangeTree} (ht : ChangeTree.ofJson root = .ok t) {b : Bucket}
    {n : Child Table} (hn : n ∈ t.children Table.ofJson? .tables b) {c : TableComparison}
    (haltered : n.node.Altered (scope resolver references mode.legacy t) c)
    (hapart : n.node.NamedApart (scope resolver references mode.legacy t) n.key) :
    (resolver.Answers → ∃ final,
      ofTree resolver references { mode with applyDrops := true } root = .ok final) ∧
    ∀ final, ofTree resolver references { mode with applyDrops := true } root = .ok final →
    ∃ own result,
      n.node.commands (scope resolver references mode.legacy t) (.ofBucket b) n.key = .ok own ∧
      IndexSet.run (QualifiedName.of c.keyspace (n.node.label n.key))
        (Command.arranged (own.filter (·.level = .index)) final)
        (n.node.indexesBefore (scope resolver references mode.legacy t) n.key) = some result ∧
      result.Same (n.node.indexesAfter (scope resolver references mode.legacy t) n.key) ∧
      IndexSet.Keeps (n.node.indexesBefore (scope resolver references mode.legacy t) n.key)
        (n.node.indexesAfter (scope resolver references mode.legacy t) n.key) own := by
  refine ⟨fun hr => exists_ofTree_eq_ok hr references _ ht, fun final hfinal => ?_⟩
  obtain ⟨cs, hcs, rfl⟩ := (ofTree_eq_ok_iff_of_ofJson ht).1 hfinal
  obtain ⟨own, hown⟩ := exists_table_commands hcs hn
  have hcommands := Table.indexCommands_of_altered haltered hown
  rw [Table.alterIndexes_eq] at hcommands
  have hmem : ∀ x ∈ own.filter (·.level = .index),
      x.statement ∈ ofStatements true (cs.map Command.statement) := fun x hx =>
    statement_mem_ofStatements hcs hn hown (List.mem_filter.1 hx).1
  rw [hcommands] at hmem
  have hleads := IndexSet.leads_arranged hmem (nodup_ofStatements_true _) (pairwise_rank_inOrder _)
  rw [← hcommands] at hleads
  obtain ⟨result, hrun, hsame⟩ := IndexSet.exists_run_of_leads hleads hapart.distinct
  refine ⟨own, result, hown, hrun, hsame,
    IndexSet.keeps_of_leads hleads hapart.distinct fun x hx hlevel => ?_⟩
  rw [hleads.mem_iff]
  exact hcommands ▸ List.mem_filter.2 ⟨hx, decide_eq_true hlevel⟩

/-! ## A table with changed indexes -/

/-- A table of which one index goes to another column under its name, one becomes an index on other
    parts of its column, one without a name stays, and the search index gets a column. -/
def redefinedIndexes : Json :=
  let named (name : String) : Json := .obj [("name", .str name)]
  let index (column : String) (more : Entries Json) : Json :=
    .obj (("SecIndxKey", .arr [named column]) :: more)
  let change (old new : List Json) : Json := .obj [("old", .arr old), ("new", .arr new)]
  let comparison : Json := .obj [("keyspaceName", .str "app"),
    ("SecIndxs", change
      [index "mail" [("name", .str "by_mail")], index "city" [],
        index "tags" [("indexType", .str "keys")]]
      [index "email" [("name", .str "by_mail")], index "city" [],
        index "tags" [("indexType", .str "values")]]),
    ("searchIndexColumns", change [named "bio"] [named "bio", named "city"])]
  ChangeTree.rootOf .tables .modified
    [("users", .obj [("role", .obj [("code", .str "users"), ("compMod", comparison)])])]

def redefinedTree : ChangeTree := ⟨redefinedIndexes.get? "properties"⟩

/-- What the comparison says of the table. -/
def redefinedComparison : TableComparison where
  keyspace := some "app"
  indexes := some
    { old := some
        [{ name := some "by_mail", keys := [{ name := some "mail" }] },
          { keys := [{ name := some "city" }] },
          { keys := [{ name := some "tags" }], part := some "keys" }]
      new := some
        [{ name := some "by_mail", keys := [{ name := some "email" }] },
          { keys := [{ name := some "city" }] },
          { keys := [{ name := some "tags" }], part := some "values" }] }
  searchColumns := some
    { old := some [{ name := some "bio" }]
      new := some [{ name := some "bio" }, { name := some "city" }] }

/-- The table as it is read. -/
def redefinedTable : Table where
  role := { code := some "users", comparison := some redefinedComparison }

/-- The indexes are dropped before others are created under their names, and the index on the city
    stays. -/
theorem run_indexes_of_redefinedIndexes :
    ∃ final own result,
      ofTree Resolver.builtin .empty { applyDrops := true } redefinedIndexes = .ok final ∧
      final.map Statement.text =
        ["DROP INDEX IF EXISTS \"app\".\"by_mail\";",
          "DROP INDEX IF EXISTS \"app\".\"users_tags_idx\";",
          "DROP SEARCH INDEX ON \"app\".\"users\";",
          "",
          "CREATE INDEX IF NOT EXISTS \"by_mail\" ON \"app\".\"users\" (\"email\");",
          "CREATE INDEX IF NOT EXISTS \"users_tags_idx\" ON \"app\".\"users\" (VALUES(\"tags\"));",
          "CREATE SEARCH INDEX IF NOT EXISTS ON \"app\".\"users\" WITH COLUMNS bio, city;"] ∧
      redefinedTable.commands (scope Resolver.builtin .empty false redefinedTree) .update "users" =
        .ok own ∧
      IndexSet.run ⟨some "app", "users"⟩
        (Command.arranged (own.filter (·.level = .index)) final)
        ⟨[⟨"by_mail", "mail", none⟩, ⟨"users_city_idx", "city", none⟩,
          ⟨"users_tags_idx", "tags", some .keys⟩], ["bio"]⟩ = some result ∧
      result.Same
        ⟨[⟨"by_mail", "email", none⟩, ⟨"users_city_idx", "city", none⟩,
          ⟨"users_tags_idx", "tags", some .values⟩], ["bio", "city"]⟩ := by
  have ht : ChangeTree.ofJson redefinedIndexes = .ok redefinedTree := rfl
  have hn : (⟨"users", redefinedTable⟩ : Child Table) ∈
      redefinedTree.children Table.ofJson? .tables .modified := List.mem_singleton.2 rfl
  have haltered : redefinedTable.Altered (scope Resolver.builtin .empty false redefinedTree)
      redefinedComparison := ⟨rfl, rfl, rfl, rfl⟩
  have hapart : redefinedTable.NamedApart (scope Resolver.builtin .empty false redefinedTree)
      "users" := ⟨by decide, by decide⟩
  obtain ⟨hexists, hall⟩ :=
    run_indexes_of_altered Resolver.builtin .empty {} ht hn haltered hapart
  obtain ⟨final, hfinal⟩ := hexists Resolver.answers_builtin
  obtain ⟨own, result, hown, hrun, hsame, _⟩ := hall final hfinal
  refine ⟨final, own, result, hfinal, ?_, hown, hrun, hsame⟩
  rw [← Except.ok.inj hfinal]
  rfl

end Script

end AlterScript
