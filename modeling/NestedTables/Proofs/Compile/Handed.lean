import NestedTables.Proofs.Compile.Ending
import NestedTables.Proofs.Compile.Gathered

/-!
# Handles for places

The outline of a walk speaks of places where the walk has handles. `Walk.Handed` says that
something has been handed up as the outline says, when the places are looked up among the
handles of a stage. Handles are only ever added, so it stays true at every later stage.

The places are right because the acts of a walk register the tables of the schema, one for one
and in their order (`Walk.pointers_registered_acts`): the number of handles at a stage is the
number of tables that have been visited by then.
-/

namespace NestedTables.Walk

variable {η ε : Type} (setting : Setting η ε)

/-! ### The tables that the acts register -/

theorem registered_joinActs (table : String) (join : Join) :
    Act.registered (joinActs table join) = [] := by
  cases join <;> rfl

theorem registered_lastActs (ctx : Option Context) (step : Option Step) (at_ : Pointer)
    (node : Fields) (results : Entries Step (Visit Nat)) :
    Act.registered (lastActs setting ctx step at_ node results) =
      if node.isTable then [(at_, outlineDraft setting ctx node results)] else [] := by
  unfold lastActs
  split
  · rfl
  · unfold arrayActs
    split
    · exact registered_joinActs _ _
    · rfl
    · rfl

mutual

/-- The acts register the tables of the schema, in their order. -/
theorem pointers_registered_acts (above : Option Context) (step : Option Step) (at_ : Pointer)
    (start : Nat) : ∀ tree : Tree,
      (Act.registered (acts setting above step at_ start tree)).map (·.1) =
        (Tree.tablesFrom at_ tree).map (·.1)
  | .node fields children => by
    rw [acts, Tree.tablesFrom]
    simp only [Act.registered_append, Act.registered_note, Act.registered_nil, List.nil_append,
      List.map_append, pointers_registered_actsBelow _ at_ start children, registered_lastActs]
    split <;> rfl

theorem pointers_registered_actsBelow (ctx : Option Context) (at_ : Pointer) (start : Nat) :
    ∀ children : List (Step × Tree),
      (Act.registered (actsBelow setting ctx at_ start children)).map (·.1) =
        (Tree.tablesBelow at_ children).map (·.1)
  | [] => rfl
  | (step, tree) :: rest => by
    rw [actsBelow, Tree.tablesBelow, Act.registered_append, List.map_append, List.map_append,
      pointers_registered_acts _ _ _ start tree, pointers_registered_actsBelow ctx at_ _ rest]

end

theorem length_registered_acts (above : Option Context) (step : Option Step) (at_ : Pointer)
    (start : Nat) (tree : Tree) :
    (Act.registered (acts setting above step at_ start tree)).length = tree.tableCount := by
  have h := congrArg List.length (pointers_registered_acts setting above step at_ start tree)
  rwa [List.length_map, List.length_map, Tree.length_tablesFrom] at h

theorem length_registered_actsBelow (ctx : Option Context) (at_ : Pointer) (start : Nat)
    (children : List (Step × Tree)) :
    (Act.registered (actsBelow setting ctx at_ start children)).length =
      Tree.countBelow children := by
  have h := congrArg List.length (pointers_registered_actsBelow setting ctx at_ start children)
  rwa [List.length_map, List.length_map, Tree.length_tablesBelow] at h

variable {setting} in
/-- **What the acts register are the tables of the schema**: what goes for every table and what
its node becomes goes along the tables and what the acts register. With each table stands its
place. -/
theorem forall₂_registered_acts {R : (Pointer × Tree) × Nat → Pointer × Draft Nat → Prop}
    (hR : ∀ (table : Fields) (at_ : Pointer) (start : Nat), table.isKeyed = true →
      table.isTable = true →
      let ctx := some ((Tree.ofFields table).context setting.settings)
      R ((at_, Tree.ofFields table), start + Tree.countBelow table.subtrees)
        (at_, outlineDraft setting ctx table (outlineAll setting ctx start table.subtrees)))
    {node : Fields} (hkeyed : node.isKeyed = true) (above : Option Context) (step : Option Step)
    (at_ : Pointer) (start : Nat) :
    List.Forall₂ R ((Tree.tablesFrom at_ (Tree.ofFields node)).zipIdx start)
      (Act.registered (acts setting above step at_ start (Tree.ofFields node))) := by
  induction node using Fields.childInduction (Q := fun cs => (∀ c ∈ cs, c.2.isKeyed = true) →
      ∀ (ctx : Option Context) (at_ : Pointer) (start : Nat),
      List.Forall₂ R
        ((Tree.tablesBelow at_ (cs.map fun c => (c.1, Tree.ofFields c.2))).zipIdx start)
        (Act.registered (actsBelow setting ctx at_ start
          (cs.map fun c => (c.1, Tree.ofFields c.2))))) generalizing above step at_ start with
  | hnil => exact .nil
  | hcons step sub cs hsub hcs hkeyed ctx at_ start =>
    rw [List.forall_mem_cons] at hkeyed
    rw [List.map_cons, Tree.tablesBelow, actsBelow, Act.registered_append, List.zipIdx_append,
      Tree.length_tablesFrom]
    exact List.rel_append (hsub hkeyed.1 ctx (some step) (at_ ++ step.path) start)
      (hcs hkeyed.2 ctx at_ (start + (Tree.ofFields sub).tableCount))
  | hnode node hall =>
    have hbelow := hall (fun c hc => Fields.isKeyed_of_mem_children hkeyed hc)
      (contextIn setting.settings above step node) at_ start
    rw [acts_ofFields, Tree.tablesFrom_ofFields, Act.registered_append,
      Act.registered_append, Act.registered_note, Act.registered_nil, List.nil_append,
      registered_lastActs, List.zipIdx_append, Tree.length_tablesBelow]
    refine List.rel_append hbelow ?_
    -- a table forgets the context around it, so `hR` need not know where the table stands
    cases htable : node.isTable with
    | true =>
      have hctx : contextIn setting.settings above step node =
          some ((Tree.ofFields node).context setting.settings) := by
        simp [contextIn, htable, Tree.context]
      rw [hctx]
      exact .cons (hR node at_ start hkeyed htable) .nil
    | false => exact .nil

/-! ### Handles for places -/

/-- Whether something has been handed up as the outline says, with the handles of a stage, and
of any later one, for the places. -/
def Handed (s : Stage η) (v : Visit η) (o : Visit Nat) : Prop :=
  ∀ handles, s.handles <+: handles → v.map some = o.map (handles[·]?)

/-- Whether the results of some children are those of the outline. -/
def HandedAll (s : Stage η) (vs : Entries Step (Visit η)) (os : Entries Step (Visit Nat)) : Prop :=
  ∀ handles, s.handles <+: handles →
    Entries.mapValues (Visit.map some) vs = Entries.mapValues (Visit.map (handles[·]?)) os

variable {setting} {s s' : Stage η} {v : Visit η} {o : Visit Nat}
  {vs : Entries Step (Visit η)} {os : Entries Step (Visit Nat)}

theorem Handed.mono (h : Handed s v o) (hs : s.handles <+: s'.handles) : Handed s' v o :=
  fun handles hhandles => h handles (hs.trans hhandles)

theorem HandedAll.nil (s : Stage η) : HandedAll s [] [] :=
  fun _ _ => rfl

theorem HandedAll.cons {step : Step} (h : Handed s v o) (hs : HandedAll s vs os) :
    HandedAll s ((step, v) :: vs) ((step, o) :: os) := by
  intro handles hhandles
  have htail := hs handles hhandles
  simp only [Entries.mapValues, List.map_cons] at htail ⊢
  rw [h handles hhandles, htail]

theorem HandedAll.mono (h : HandedAll s vs os) (hs : s.handles <+: s'.handles) :
    HandedAll s' vs os :=
  fun handles hhandles => h handles (hs.trans hhandles)

theorem Handed.table_isSome (h : Handed s v o) : v.table.isSome = o.table.isSome := by
  have htable := congrArg (fun v => v.table.isSome) (h _ List.prefix_rfl)
  simpa [Visit.map] using htable

theorem Handed.keys_relations (h : Handed s v o) :
    Entries.keys v.relations = Entries.keys o.relations := by
  have hkeys := congrArg (fun v => Entries.keys v.relations) (h _ List.prefix_rfl)
  simpa [Visit.map] using hkeys

theorem HandedAll.keys (h : HandedAll s vs os) : Entries.keys vs = Entries.keys os := by
  have hkeys := congrArg Entries.keys (h _ List.prefix_rfl)
  simpa using hkeys

theorem HandedAll.handedUp (h : HandedAll s vs os) {handles : List η}
    (hhandles : s.handles <+: handles) :
    Entries.mapValues (Relation.map some) (handedUp vs) =
      Entries.mapValues (Relation.map (handles[·]?)) (handedUp os) := by
  rw [← handedUp_map, ← handedUp_map, h handles hhandles]

theorem HandedAll.keys_handedUp (h : HandedAll s vs os) :
    Entries.keys (Walk.handedUp vs) = Entries.keys (Walk.handedUp os) := by
  have hkeys := congrArg Entries.keys (h.handedUp List.prefix_rfl)
  rwa [Entries.keys_mapValues, Entries.keys_mapValues] at hkeys

theorem HandedAll.manyOf (h : HandedAll s vs os) (setting : Setting η ε) (ctx : Option Context)
    (step : Option Step) (node : Fields) {handles : List η} (hhandles : s.handles <+: handles) :
    Entries.mapValues (Relation.map some) (manyOf setting ctx step node vs) =
      Entries.mapValues (Relation.map (handles[·]?)) (manyOf setting.words ctx step node os) := by
  rw [← manyOf_map, ← manyOf_map, h handles hhandles]
  rfl

theorem HandedAll.keys_manyOf (h : HandedAll s vs os) (setting : Setting η ε)
    (ctx : Option Context) (step : Option Step) (node : Fields) :
    Entries.keys (Walk.manyOf setting ctx step node vs) =
      Entries.keys (Walk.manyOf (setting.words : Setting Nat Unit) ctx step node os) := by
  have hkeys := congrArg Entries.keys (h.manyOf setting ctx step node List.prefix_rfl)
  rwa [Entries.keys_mapValues, Entries.keys_mapValues] at hkeys

theorem HandedAll.gathered (h : HandedAll s vs os) (setting : Setting η ε)
    (ctx : Option Context) {handles : List η} (hhandles : s.handles <+: handles) :
    Entries.mapValues (Relation.map some) (gathered setting ctx vs) =
      Entries.mapValues (Relation.map (handles[·]?)) (gathered setting.words ctx os) := by
  rw [← gathered_map, ← gathered_map, h handles hhandles]
  rfl

theorem HandedAll.keys_gathered (h : HandedAll s vs os) (ctx : Option Context) :
    Entries.keys (Walk.gathered setting ctx vs) =
      Entries.keys (Walk.gathered (setting.words : Setting Nat Unit) ctx os) := by
  have hkeys := congrArg Entries.keys (h.gathered setting ctx List.prefix_rfl)
  rwa [Entries.keys_mapValues, Entries.keys_mapValues] at hkeys

theorem HandedAll.keptOf (h : HandedAll s vs os) (ctx : Option Context) (node : Fields) :
    keptOf setting ctx node vs = Walk.keptOf (setting.words : Setting Nat Unit) ctx node os := by
  rw [← keptOf_map setting ctx some vs node, h _ List.prefix_rfl,
    ← keptOf_map (setting.words : Setting Nat Unit) ctx (s.handles[·]?) os node]
  rfl

theorem HandedAll.items (h : HandedAll s vs os) {handles : List η}
    (hhandles : s.handles <+: handles) :
    ((Entries.get? .items vs).bind Visit.table).map (Target.map some) =
      ((Entries.get? .items os).bind Visit.table).map (Target.map (handles[·]?)) := by
  have hget := congrArg (Entries.get? Step.items) (h handles hhandles)
  rw [get?_map, get?_map] at hget
  have hbind := congrArg (fun v => Option.bind v Visit.table) hget
  cases hv : Entries.get? Step.items vs <;> cases ho : Entries.get? Step.items os <;>
    simp_all [Visit.map]
end NestedTables.Walk
