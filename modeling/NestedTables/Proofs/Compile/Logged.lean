import NestedTables.Proofs.Compile.Compilation
import NestedTables.Proofs.Compile.Replay

/-!
# What a compilation logs of the nodes of a schema

Three facts of the log are about a node: that a table has been registered, that a table is not
visited, and that the relation to the tables of an array is not attached. The others are about
overrides, names and columns. Which facts about nodes are logged does not depend on anything that
has been logged or registered before: they are what the acts of the schema tell, in their order
(`compile_nodal`). And the acts follow the schema node by node (`Walk.told_acts`): a node tells of
the tables right under it that are not visited, then the nodes below tell theirs, and at last it
tells of itself.
-/

namespace NestedTables

variable {η ε : Type}

/-! ### Facts about nodes -/

namespace Event

/-- The pointer of the table, if a fact tells that it is not visited. -/
def unvisited? : Event → Option Pointer
  | .notVisited at_ => some at_
  | _ => none

/-- The pointer of the array and the name of its tables, if a fact tells that their relation is not
attached. -/
def unattached? : Event → Option (Pointer × String)
  | .notAttached at_ table => some (at_, table)
  | _ => none

/-- The pointer of the table, if a fact tells that it has been registered. -/
def registered? : Event → Option Pointer
  | .registered _ _ at_ _ => some at_
  | _ => none

/-- Whether a fact is about a node of the schema. -/
def isNodal (e : Event) : Bool :=
  e.unvisited?.isSome || e.unattached?.isSome || e.registered?.isSome

/-- The facts of a log that are about nodes. -/
def nodal (log : List Event) : List Event :=
  log.filter isNodal

theorem isNodal_of_unvisited? {e : Event} (h : e.unvisited?.isSome = true) : e.isNodal = true := by
  rw [isNodal, h, Bool.true_or, Bool.true_or]

theorem isNodal_of_unattached? {e : Event} (h : e.unattached?.isSome = true) :
    e.isNodal = true := by
  rw [isNodal, h, Bool.or_true, Bool.true_or]

theorem isNodal_of_registered? {e : Event} (h : e.registered?.isSome = true) :
    e.isNodal = true := by
  rw [isNodal, h, Bool.or_true]

/-- Such facts are logged for those who look into a compilation. -/
theorem level_of_isNodal {e : Event} (h : e.isNodal = true) :
    e.level = .debug ∧ e.channel = "relschema.compiler" := by
  cases e with
  | notVisited | notAttached | registered => exact ⟨rfl, rfl⟩
  | _ => simp [isNodal, unvisited?, unattached?, registered?] at h

variable (log log' : List Event)

@[simp] theorem nodal_append : nodal (log ++ log') = nodal log ++ nodal log' :=
  List.filter_append log log'

/-- What is read off the facts about nodes is read off the whole log, if it is about nodes. -/
theorem filterMap_nodal {α : Type} {f : Event → Option α}
    (h : ∀ e, (f e).isSome = true → e.isNodal = true) :
    (nodal log).filterMap f = log.filterMap f := by
  rw [nodal, List.filterMap_filter]
  refine List.filterMap_congr fun e _ => ?_
  by_cases he : e.isNodal = true
  · rw [if_pos he]
  · rw [if_neg he]
    exact (Option.not_isSome_iff_eq_none.mp (mt (h e) he)).symm

/-- What is about other facts is not read off tables that are not visited. -/
theorem filterMap_notVisited {α : Type} {f : Event → Option α}
    (h : ∀ p, f (.notVisited p) = none) (at_ : Pointer) (ps : List Pointer) :
    (ps.map fun p => notVisited (at_ ++ p)).filterMap f = [] := by
  rw [List.filterMap_map]
  exact List.filterMap_eq_nil_iff.mpr fun p _ => h (at_ ++ p)

end Event

/-! ### What acts tell -/

namespace Act

/-- What some acts tell of nodes, in order: what they note, and which tables they register. -/
def told : List Act → List Event
  | [] => []
  | .note events :: acts => events ++ told acts
  | .register at_ d :: acts =>
    .registered d.tableName d.modelName at_ d.relations.length :: told acts
  | .request _ _ :: acts => told acts

variable (acts acts' : List Act)

@[simp] theorem told_nil : told [] = [] := rfl

@[simp] theorem told_note (events : List Event) :
    told (.note events :: acts) = events ++ told acts := rfl

@[simp] theorem told_register (at_ : Pointer) (d : Draft Nat) :
    told (.register at_ d :: acts) =
      .registered d.tableName d.modelName at_ d.relations.length :: told acts := rfl

@[simp] theorem told_request (table column : String) :
    told (.request table column :: acts) = told acts := rfl

@[simp] theorem told_append : told (acts ++ acts') = told acts ++ told acts' := by
  induction acts with
  | nil => rfl
  | cons act acts ih => cases act <;> simp [ih]

end Act

namespace Stage

variable {setting : Walk.Setting η ε} {s s' : Stage η}

/-- **An act adds what it tells.** Whatever else is logged with it is not about a node. -/
theorem Does.nodal_log {act : Act} (h : Does setting s act s') :
    Event.nodal s'.registry.log = Event.nodal s.registry.log ++ Event.nodal (Act.told [act]) := by
  cases h with
  | note events => simp [Stage.note, Registry.noteAll]
  | register at_ hanswer =>
    have hagain : ∀ again model, Event.nodal
        (if again = true then [Event.registeredAgain model] else []) = [] := by
      intro again model
      cases again <;> rfl
    simp only [Stage.register, Registry.register, Event.nodal_append, hagain, List.append_nil,
      Act.told_register, Act.told_nil, drafted, Draft.withColumns_tableName,
      Draft.withColumns_modelName, Draft.withHandles_tableName, Draft.withHandles_modelName]
  | request table column =>
    have hshared : ∀ shared : Bool, Event.nodal
        (if shared = true then [Event.sharedColumn table column] else []) = [] := by
      intro shared
      cases shared <;> rfl
    have hreused : ∀ drafts : List (Draft η), Event.nodal
        (drafts.map fun _ => Event.reusedColumn table column) = [] := by
      intro drafts
      rw [Event.nodal, List.filter_eq_nil_iff]
      intro e he
      obtain ⟨_, -, rfl⟩ := List.mem_map.mp he
      exact Bool.false_ne_true
    simp only [Stage.request, Registry.request, Registry.requestEvents, Event.nodal_append,
      hshared, hreused, Act.told_request, Act.told_nil]
    rfl

/-- **A run adds what its acts tell.** -/
theorem Performs.nodal_log {acts : List Act} (h : Performs setting s acts s') :
    Event.nodal s'.registry.log = Event.nodal s.registry.log ++ Event.nodal (Act.told acts) := by
  induction h with
  | nil => exact (List.append_nil _).symm
  | @cons s s₁ s₂ act acts hdoes _ ih =>
    have hcons : Act.told (act :: acts) = Act.told [act] ++ Act.told acts :=
      Act.told_append [act] acts
    rw [ih, hdoes.nodal_log, List.append_assoc, hcons, Event.nodal_append]

end Stage

/-! ### What the acts of a schema tell -/

namespace Walk

variable (setting : Setting η ε)

/-- What a node tells of itself when its children have been visited: as a table that it has been
registered, and as an array of tables that its relation is not attached, if it is not. -/
def toldLast (ctx : Option Context) (step : Option Step) (at_ : Pointer) (node : Fields)
    (results : Entries Step (Visit Nat)) : List Event :=
  if node.isTable then
    [.registered (node.names setting.settings).tableName (node.names setting.settings).modelName
      at_ (outlineDraft setting ctx node results).relations.length]
  else match many? ctx step node results, node.kind, (results.get? .items).bind Visit.table with
    | none, .arrayOfTable, some target => [.notAttached at_ target.tableName]
    | _, _, _ => []

theorem told_joinActs (table : String) (join : Join) : Act.told (joinActs table join) = [] := by
  cases join <;> rfl

theorem told_lastActs (ctx : Option Context) (step : Option Step) (at_ : Pointer)
    (node : Fields) (results : Entries Step (Visit Nat)) :
    Act.told (lastActs setting ctx step at_ node results) =
      toldLast setting ctx step at_ node results := by
  rw [lastActs, toldLast]
  split
  · rfl
  · rw [arrayActs]
    cases many? ctx step node results with
    | some m => exact told_joinActs _ _
    | none => split <;> simp_all

/-- **What a visit tells** is what lies right under the node unvisited, then what the visits of the
nodes below tell, and then what the node tells of itself. -/
theorem told_acts (above : Option Context) (step : Option Step) (at_ : Pointer) (start : Nat)
    (node : Fields) :
    Act.told (acts setting above step at_ start (Tree.ofFields node)) =
      node.unvisitedTables.map (fun p => .notVisited (at_ ++ p)) ++
        (Act.told (actsBelow setting (contextIn setting.settings above step node) at_ start
            node.subtrees) ++
          toldLast setting (contextIn setting.settings above step node) step at_ node
            (outlineAll setting (contextIn setting.settings above step node) start
              node.subtrees)) := by
  rw [acts_ofFields, Act.told_append, Act.told_note, Act.told_nil, List.append_nil,
    Act.told_append, told_lastActs]

theorem told_actsBelow_cons (ctx : Option Context) (at_ : Pointer) (start : Nat) (step : Step)
    (tree : Tree) (rest : List (Step × Tree)) :
    Act.told (actsBelow setting ctx at_ start ((step, tree) :: rest)) =
      Act.told (acts setting ctx (some step) (at_ ++ step.path) start tree) ++
        Act.told (actsBelow setting ctx at_ (start + tree.tableCount) rest) := by
  rw [actsBelow, Act.told_append]

theorem filterMap_registered?_toldLast (ctx : Option Context) (step : Option Step) (at_ : Pointer)
    (node : Fields) (results : Entries Step (Visit Nat)) :
    (toldLast setting ctx step at_ node results).filterMap Event.registered? =
      if node.isTable then [at_] else [] := by
  rw [toldLast]
  split
  · rfl
  · split <;> rfl

/-- **The tables that a visit tells of** as registered are those at the node and below it. -/
theorem filterMap_registered?_acts (above : Option Context) (step : Option Step) (at_ : Pointer)
    (start : Nat) (node : Fields) :
    (Act.told (acts setting above step at_ start (Tree.ofFields node))).filterMap
        Event.registered? = (Tree.tablesFrom at_ (Tree.ofFields node)).map (·.1) := by
  induction node using Fields.childInduction (Q := fun cs =>
      ∀ (ctx : Option Context) (at_ : Pointer) (start : Nat),
        (Act.told (actsBelow setting ctx at_ start
          (cs.map fun c => (c.1, Tree.ofFields c.2)))).filterMap Event.registered? =
        (Tree.tablesBelow at_ (cs.map fun c => (c.1, Tree.ofFields c.2))).map (·.1))
      generalizing above step at_ start with
  | hnil => rfl
  | hcons step sub cs hsub hcs ctx at_ start =>
    rw [List.map_cons, told_actsBelow_cons, List.filterMap_append, hsub, hcs, Tree.tablesBelow,
      List.map_append]
  | hnode node hbelow =>
    have hall := hbelow (contextIn setting.settings above step node) at_ start
    rw [told_acts, List.filterMap_append, List.filterMap_append,
      Event.filterMap_notVisited fun _ => rfl, filterMap_registered?_toldLast,
      Tree.tablesFrom_ofFields, List.map_append, List.nil_append]
    refine congrArg₂ _ hall ?_
    split <;> rfl

end Walk

/-! ### The log of a compilation -/

variable {settings : Settings} {schema : Fields} {binder : Binder η ε}

/-- The checks of the overrides log nothing that is about a node. -/
theorem nodal_checkLog (settings : Settings) (schema : Fields) :
    Event.nodal (checkLog settings schema) = [] := by
  rw [Event.nodal, List.filter_eq_nil_iff]
  intro e he
  rcases List.mem_append.mp he with he | he
  · unfold Override.checkEvents at he
    simp only [List.mem_cons, List.not_mem_nil, or_false] at he
    rcases he with rfl | rfl | rfl | rfl | rfl
    · exact Bool.false_ne_true
    · exact Bool.false_ne_true
    · exact Bool.false_ne_true
    · exact Bool.false_ne_true
    · split <;> exact Bool.false_ne_true
  · obtain ⟨w, -, rfl⟩ := List.mem_map.mp he
    exact Bool.false_ne_true

/-- **The log of a compilation that gives a result** is what is logged while the acts of the schema
are performed, and that the compilation has come to its end. -/
theorem exists_log_eq (hset : settings.IsValid) (hkeyed : schema.isKeyed = true)
    {models : Entries String η}
    (hok : (compile binder settings (.map schema)).result = .ok models) :
    ∃ s : Stage η, (Stage.start (checkLog settings schema)).Performs ⟨settings, binder⟩
        (compileActs binder settings schema) s ∧
      (compile binder settings (.map schema)).log =
        s.registry.log ++ [.compiled s.registry.drafts.length s.registry.models.length] := by
  have hvalid := isValid_of_result_eq_ok binder hok
  have hwalk := Walk.walks_visit (⟨settings, binder⟩ : Walk.Setting η ε) hkeyed
    (fun n hn => Override.sound_of_isValid hset hvalid hn)
    (Stage.start (checkLog settings schema)) none none [] (by simp)
  unfold Walk.Walks at hwalk
  change Walk.Ends _ _ _ _ _ (walkSchema binder settings schema (checkLog settings schema)) at hwalk
  unfold checkLog at hwalk
  simp only [compile, compileFields, refusal?_eq_none_iff.mpr hvalid] at hok ⊢
  generalize walkSchema binder settings schema _ = out at hwalk hok ⊢
  cases hwalk with
  | finished h => exact ⟨_, h, rfl⟩
  | refused | collided => simp at hok

/-- **What a compilation with a result logs of the nodes** is what the acts of the schema tell. -/
theorem compile_nodal (hset : settings.IsValid) (hkeyed : schema.isKeyed = true)
    {models : Entries String η}
    (hok : (compile binder settings (.map schema)).result = .ok models) :
    Event.nodal (compile binder settings (.map schema)).log =
      Event.nodal (Act.told (compileActs binder settings schema)) := by
  obtain ⟨s, hperforms, hlog⟩ := exists_log_eq hset hkeyed hok
  have hstart : Event.nodal (Stage.start (η := η) (checkLog settings schema)).registry.log = [] :=
    nodal_checkLog settings schema
  rw [hlog, Event.nodal_append, hperforms.nodal_log, hstart, List.nil_append]
  exact List.append_nil _

/-- What is read off the log about nodes is read off what the acts of the schema tell. -/
theorem filterMap_log (hset : settings.IsValid) (hkeyed : schema.isKeyed = true)
    {models : Entries String η}
    (hok : (compile binder settings (.map schema)).result = .ok models) {α : Type}
    {f : Event → Option α} (hf : ∀ e, (f e).isSome = true → e.isNodal = true) :
    (compile binder settings (.map schema)).log.filterMap f =
      (Act.told (compileActs binder settings schema)).filterMap f := by
  rw [← Event.filterMap_nodal _ hf, compile_nodal hset hkeyed hok, Event.filterMap_nodal _ hf]

/-- **The log of a compilation with a result tells of the tables of the schema** as registered, and
of no other ones, in their order. -/
theorem compile_registered (hset : settings.IsValid) (hkeyed : schema.isKeyed = true)
    {models : Entries String η}
    (hok : (compile binder settings (.map schema)).result = .ok models) :
    (compile binder settings (.map schema)).log.filterMap Event.registered? =
      (Tree.ofFields schema).tables.map (·.1) := by
  rw [filterMap_log hset hkeyed hok fun _ => Event.isNodal_of_registered?, compileActs,
    Walk.filterMap_registered?_acts]
  rfl

end NestedTables
