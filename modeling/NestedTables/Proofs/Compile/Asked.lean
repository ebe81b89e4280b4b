import NestedTables.Proofs.Compile.Handed
import NestedTables.Proofs.Override.Accepted

/-!
# The columns that a schema asks for

A foreign-key column is asked for by an array of tables under a property in a table's region,
unless the array says how to join. The acts of a walk ask for exactly these columns
(`Walk.asksForSites`). Which table an array belongs to is known to the walk only as the
context on the way down; here it is the table in whose region the array is a site.

The array itself asks, at the end of its own visit. So the induction speaks of a child together
with the step that reaches it, and of the sites that the child adds to those of its node
(`Tree.sitesAt`).
-/

namespace NestedTables

/-- Whether an array of tables among some sites of a table asks for a column of the tables of a
name; `owner` is the id path of the table that the sites belong to. -/
def Asks (settings : Settings) (owner : String) (sites : List Site) (table column : String) :
    Prop :=
  ∃ s ∈ sites, s.child.fields.kind = .arrayOfTable ∧
    (s.target.names settings).tableName = table ∧
      s.child.fields.join settings owner = .foreignKey column

variable {settings : Settings} {owner table column : String} {sites sites' : List Site}

@[simp] theorem not_asks_nil : ¬ Asks settings owner [] table column := by
  rintro ⟨s, hs, -⟩
  simp at hs

@[simp] theorem asks_append : Asks settings owner (sites ++ sites') table column ↔
    Asks settings owner sites table column ∨ Asks settings owner sites' table column := by
  simp [Asks, or_and_right, exists_or]

theorem asks_perm (h : sites.Perm sites') :
    Asks settings owner sites table column ↔ Asks settings owner sites' table column := by
  constructor
  · rintro ⟨s, hs, h'⟩
    exact ⟨s, h.mem_iff.mp hs, h'⟩
  · rintro ⟨s, hs, h'⟩
    exact ⟨s, h.mem_iff.mpr hs, h'⟩

/-- Whether a column is asked for in the sites of the table that a context belongs to. -/
def AsksAround (settings : Settings) (ctx : Option Context) (sites : List Site)
    (table column : String) : Prop :=
  ∃ owner, ctx = some owner ∧ Asks settings owner.idPath sites table column

@[simp] theorem not_asksAround_none :
    ¬ AsksAround settings none sites table column := by
  simp [AsksAround]

@[simp] theorem asksAround_some {owner : Context} :
    AsksAround settings (some owner) sites table column ↔
      Asks settings owner.idPath sites table column := by
  simp [AsksAround]

theorem asksAround_append {ctx : Option Context} :
    AsksAround settings ctx (sites ++ sites') table column ↔
      AsksAround settings ctx sites table column ∨ AsksAround settings ctx sites' table column := by
  cases ctx <;> simp

/-- Whether a column is asked for in a table that is among some tables. -/
def AsksIn (settings : Settings) (tables : List (Pointer × Tree)) (table column : String) : Prop :=
  ∃ t ∈ tables, Asks settings (t.2.fields.idPath settings) t.2.sites table column

theorem asksIn_append {ts ts' : List (Pointer × Tree)} :
    AsksIn settings (ts ++ ts') table column ↔
      AsksIn settings ts table column ∨ AsksIn settings ts' table column := by
  simp [AsksIn, or_and_right, exists_or]

namespace Walk

variable {η ε : Type} (setting : Setting η ε) {node : Fields}

theorem mem_asked_joinActs {join : Join} {target : String} :
    column ∈ Act.asked table (joinActs target join) ↔
      target = table ∧ join = .foreignKey column := by
  cases join with
  | column | through => simp [joinActs]
  | foreignKey c =>
    by_cases h : target = table
    · simp [joinActs, h, eq_comm]
    · simp [joinActs, h]

/-- The context of a node that is no table is the one around it, and one step on. -/
theorem exists_of_contextIn_eq_some {above : Option Context} {step : Option Step}
    {child : Context} (htable : node.isTable = false)
    (h : contextIn settings above step node = some child) :
    ∃ owner st, above = some owner ∧ step = some st ∧ child = owner.child st.key.plain := by
  cases above <;> cases step <;> simp [contextIn, htable] at h
  exact ⟨_, _, rfl, rfl, h.symm⟩

/-- What becomes no relation asks for nothing. -/
theorem asked_arrayActs_of_many? {ctx : Option Context} {step : Option Step}
    {results : Entries Step (Visit Nat)} (h : many? ctx step node results = none)
    (at_ : Pointer) : Act.asked table (arrayActs setting ctx step at_ node results) = [] := by
  unfold arrayActs
  rw [h]
  split
  · next heq => simp at heq
  · rfl
  · rfl

/-- What an array of tables asks for. -/
theorem mem_asked_arrayActs {owner : Context} {step : Step} (way : List Step)
    (htable : node.isTable = false) (hstep : ∀ name, step = .property name → name.isText = true)
    (child : Context) (hchild : child.idPath = owner.idPath) (at_ : Pointer) (start : Nat) :
    column ∈ Act.asked table (arrayActs setting (some child) (some step) at_ node
        (outlineAll setting (some child) start node.subtrees)) ↔
      Asks setting.settings owner.idPath (Site.of? way (step, Tree.ofFields node)).toList table
        column := by
  by_cases hkind : node.kind = .arrayOfTable
  · have hkind' : (Tree.ofFields node).fields.kind = .arrayOfTable := hkind
    obtain ⟨items, place, hitems, -, htarget⟩ :=
      exists_items_target setting hkind (some child) start
    cases step with
    | items =>
      simp only [arrayActs, many?_items, hkind, htarget]
      simp [Site.of?]
    | property name =>
      obtain ⟨name, rfl⟩ := Scalar.isText_iff.mp (hstep name rfl)
      have hsite : (⟨way, name, Tree.ofFields node⟩ : Site).target = items := by
        simp [Site.target, htable, hitems]
      rw [of?_property name (Or.inr hkind'), Option.toList_some]
      simp only [arrayActs, many?, hkind, htarget, mem_asked_joinActs, Asks, List.mem_singleton,
        exists_eq_left, hsite, hchild, Tree.fields_ofFields, true_and]
  · have htable' : (Tree.ofFields node).fields.isTable = false := htable
    have hkind' : (Tree.ofFields node).fields.kind ≠ .arrayOfTable := hkind
    have hnone : Site.of? way (step, Tree.ofFields node) = none := of?_of_kind htable' hkind'
    rw [hnone, asked_arrayActs_of_many? setting (many?_of_kind hkind _)]
    simp

theorem asked_lastActs_of_isTable (htable : node.isTable = true) (ctx : Option Context)
    (step : Option Step) (at_ : Pointer) (results : Entries Step (Visit Nat)) :
    Act.asked table (lastActs setting ctx step at_ node results) = [] := by
  rw [lastActs, if_pos htable]
  rfl

/-- A table asks for nothing where it is a site itself. -/
theorem not_asks_of?_of_isTable (htable : node.isTable = true) (way : List Step) (step : Step) :
    ¬ Asks settings owner (Site.of? way (step, Tree.ofFields node)).toList table column := by
  rintro ⟨s, hs, hkind, -⟩
  rw [(Site.of?_eq_some (Option.mem_toList.mp hs)).2.2, Tree.fields_ofFields,
    Fields.kind_eq_table_iff.mpr htable] at hkind
  exact NodeKind.noConfusion hkind

/-! ### The acts of a visit -/

/-- Whether the acts of the visit of a node ask for a column exactly if a site does: one of a table
at or below the node, or one that the node adds to the table around it. -/
def AsksForSites (table column : String) (step : Option Step) (node : Fields) : Prop :=
  ∀ (above : Option Context) (at_ : Pointer) (start : Nat) (way : List Step),
    column ∈ Act.asked table (acts setting above step at_ start (Tree.ofFields node)) ↔
      AsksIn setting.settings (Tree.tablesFrom at_ (Tree.ofFields node)) table column ∨
        ∃ step', step = some step' ∧ AsksAround setting.settings above
          (Tree.sitesAt way (step', Tree.ofFields node)) table column

/-- The same for children, which add to the table of their node. -/
def AsksForSitesBelow (table column : String) (trees : List (Step × Tree)) : Prop :=
  ∀ (ctx : Option Context) (at_ : Pointer) (start : Nat) (way : List Step),
    column ∈ Act.asked table (actsBelow setting ctx at_ start trees) ↔
      AsksIn setting.settings (Tree.tablesBelow at_ trees) table column ∨
        AsksAround setting.settings ctx (trees.flatMap (Tree.sitesAt way)) table column

/-- The first child and the others ask independently of each other. -/
theorem asksForSitesBelow_cons {step : Step} {sub : Fields} {rest : List (Step × Tree)}
    (hsub : AsksForSites setting table column (some step) sub)
    (hrest : AsksForSitesBelow setting table column rest) :
    AsksForSitesBelow setting table column ((step, Tree.ofFields sub) :: rest) := by
  intro ctx at_ start way
  have hfirst := hsub ctx (at_ ++ step.path) start way
  have hrest := hrest ctx at_ (start + (Tree.ofFields sub).tableCount) way
  simp only [Option.some.injEq, exists_eq_left'] at hfirst
  rw [actsBelow, Tree.tablesBelow, List.flatMap_cons, Act.asked_append,
    List.mem_append, hfirst, hrest, asksIn_append, asksAround_append]
  exact or_or_or_comm

/-- The sites of the region below a node are what its children add. -/
theorem asks_regionFrom (node : Fields) (way : List Step) :
    Asks settings owner (Tree.sitesOf (Tree.regionFrom way (Tree.ofFields node))) table column ↔
      Asks settings owner (node.subtrees.flatMap (Tree.sitesAt way)) table column := by
  rw [Tree.ofFields_eq_node]
  exact asks_perm (Tree.sitesOf_regionFrom_perm way node node.subtrees)

theorem mem_asked_acts (above : Option Context) (step : Option Step) (at_ : Pointer)
    (start : Nat) :
    column ∈ Act.asked table (acts setting above step at_ start (Tree.ofFields node)) ↔
      column ∈ Act.asked table (actsBelow setting (contextIn setting.settings above step node) at_
          start node.subtrees) ∨
        column ∈ Act.asked table (lastActs setting (contextIn setting.settings above step node) step
          at_ node (outlineAll setting (contextIn setting.settings above step node) start
            node.subtrees)) := by
  rw [acts_ofFields, Act.asked_append, Act.asked_note, Act.asked_nil, List.nil_append,
    Act.asked_append, List.mem_append]

/-- **A table** opens a context of its own: the sites below it are its own, and it adds none to
the table around it. -/
theorem asksForSites_of_isTable (htable : node.isTable = true)
    (hbelow : AsksForSitesBelow setting table column node.subtrees) (step : Option Step) :
    AsksForSites setting table column step node := by
  intro above at_ start way
  have hctx : contextIn setting.settings above step node =
      some (.ofTable (node.names setting.settings).tableName
        (node.names setting.settings).idColumn) := by
    simp [contextIn, htable]
  have htables : Tree.tablesFrom at_ (Tree.ofFields node) =
      Tree.tablesBelow at_ node.subtrees ++ [(at_, Tree.ofFields node)] := by
    rw [Tree.tablesFrom_ofFields, if_pos htable]
  have hself : AsksIn setting.settings [(at_, Tree.ofFields node)] table column ↔
      Asks setting.settings (node.idPath setting.settings)
        (node.subtrees.flatMap (Tree.sitesAt [])) table column := by
    rw [← asks_regionFrom]
    simp [AsksIn, Tree.sites, Tree.region]
  have hnone : ∀ step', ¬ AsksAround setting.settings above
      (Tree.sitesAt way (step', Tree.ofFields node)) table column := by
    rintro step' ⟨owner, -, hasks⟩
    rw [Tree.sitesAt, Tree.fields_ofFields, if_pos htable, Tree.sitesOf_nil, List.append_nil]
      at hasks
    exact not_asks_of?_of_isTable htable way step' hasks
  have hfirst := hbelow (contextIn setting.settings above step node) at_ start []
  rw [hctx, asksAround_some] at hfirst
  rw [mem_asked_acts, asked_lastActs_of_isTable setting htable, htables, asksIn_append, hself,
    hctx]
  simp only [hnone, and_false, exists_false, or_false, List.not_mem_nil]
  exact hfirst

/-- **Any other node** passes on the sites below it, and may be one itself. -/
theorem asksForSites_of_not_table (htable : node.isTable = false)
    (hbelow : AsksForSitesBelow setting table column node.subtrees) {step : Option Step}
    (hstep : ∀ name, step = some (.property name) → name.isText = true) :
    AsksForSites setting table column step node := by
  intro above at_ start way
  have htables : Tree.tablesFrom at_ (Tree.ofFields node) =
      Tree.tablesBelow at_ node.subtrees := by
    rw [Tree.tablesFrom_ofFields, if_neg (by simp [htable]), List.append_nil]
  have hlast : ∀ ctx results, lastActs setting ctx step at_ node results =
      arrayActs setting ctx step at_ node results := by
    intro ctx results
    rw [lastActs, if_neg (by simp [htable])]
  rw [mem_asked_acts, hlast, htables]
  cases hctx : contextIn setting.settings above step node with
  | none =>
    have hno : ¬ ∃ step', step = some step' ∧ AsksAround setting.settings above
        (Tree.sitesAt way (step', Tree.ofFields node)) table column := by
      rintro ⟨step', rfl, owner, rfl, -⟩
      simp [contextIn, htable] at hctx
    have hfirst := hbelow none at_ start way
    rw [or_iff_left not_asksAround_none] at hfirst
    rw [or_iff_left hno, asked_arrayActs_of_many? setting (many?_of_no_context node _),
      or_iff_left List.not_mem_nil]
    exact hfirst
  | some child =>
    obtain ⟨owner, st, rfl, rfl, rfl⟩ := exists_of_contextIn_eq_some htable hctx
    have hsites : Asks setting.settings owner.idPath
        (Tree.sitesAt way (st, Tree.ofFields node)) table column ↔
          Asks setting.settings owner.idPath
            (Site.of? way (st, Tree.ofFields node)).toList table column ∨
          Asks setting.settings owner.idPath
            (node.subtrees.flatMap (Tree.sitesAt (way ++ [st]))) table column := by
      rw [Tree.sitesAt, Tree.fields_ofFields, if_neg (by simp [htable]), asks_append,
        asks_regionFrom]
    have hself : column ∈ Act.asked table _ ↔ _ := mem_asked_arrayActs setting way htable
      (fun name heq => hstep name (congrArg some heq)) (owner.child st.key.plain) rfl at_ start
    have hfirst := hbelow (some (owner.child st.key.plain)) at_ start (way ++ [st])
    rw [asksAround_some] at hfirst
    -- the array asks last, but its site is counted first
    rw [hself]
    simp only [Option.some.injEq, exists_eq_left', asksAround_some, hsites]
    rw [or_comm (b := Asks setting.settings owner.idPath
      (node.subtrees.flatMap (Tree.sitesAt (way ++ [st]))) table column), ← or_assoc]
    exact or_congr_left hfirst

/-- **The acts of a visit ask for the columns of the sites**: those of the tables at and below
the node, and those that the node adds to the table around it. -/
theorem asksForSites (hkeyed : node.isKeyed = true) {step : Option Step}
    (hstep : ∀ name, step = some (.property name) → name.isText = true) :
    AsksForSites setting table column step node := by
  induction node using Fields.childInduction (Q := fun cs =>
      (∀ c ∈ cs, c.2.isKeyed = true ∧ ∀ name, c.1 = .property name → name.isText = true) →
        AsksForSitesBelow setting table column (cs.map fun c => (c.1, Tree.ofFields c.2)))
      generalizing step with
  | hnil =>
    intro ctx at_ start way
    simp [actsBelow, Tree.tablesBelow, AsksIn, AsksAround]
  | hcons step' sub cs hsub hcs hmem =>
    rw [List.forall_mem_cons] at hmem
    obtain ⟨⟨hkeyed, hname⟩, hmem⟩ := hmem
    have hfirst := hsub hkeyed fun name heq => hname name (Option.some.inj heq)
    exact asksForSitesBelow_cons setting hfirst (hcs hmem)
  | hnode node hbelow =>
    have hall := hbelow fun _ => Fields.keyed_of_mem_children hkeyed
    cases htable : node.isTable with
    | true => exact asksForSites_of_isTable setting htable hall step
    | false => exact asksForSites_of_not_table setting htable hall hstep

/-- **The columns that a walk asks for** are those that the tables ask for. -/
theorem mem_asked_acts_root (hkeyed : node.isKeyed = true) :
    column ∈ Act.asked table (acts setting none none [] 0 (Tree.ofFields node)) ↔
      AsksIn setting.settings (Tree.ofFields node).tables table column := by
  have hnever : ¬ ∃ step', none = some step' ∧ AsksAround setting.settings none
      (Tree.sitesAt [] (step', Tree.ofFields node)) table column := by
    rintro ⟨_, h, -⟩
    exact absurd h (by simp)
  have hall : AsksForSites setting table column none node :=
    asksForSites setting hkeyed fun _ h => by simp at h
  rw [hall none [] 0 [], or_iff_left hnever, Tree.tables]

end Walk

end NestedTables
