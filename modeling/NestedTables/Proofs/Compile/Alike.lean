import NestedTables.Proofs.Compile.Corresponds
import NestedTables.Proofs.Compile.Registration

/-!
# Walks that do the same

Two walks do the same if they give one result and leave one registry, whatever they add to the log
(`Walk.Alike`). It is a relation between two runs, and its rules follow the structure of a program.

A walk reads little of a node: what it is called, what kind of node it is, the nodes right below
it, and the entries that are kept. `Fields.Corresponds` says that two nodes, each with settings of
its own, are the same in all this, and that the nodes below them are related in turn. If related
nodes correspond, the visits of related nodes do the same (`Walk.alike_visit`). The relation is any
that is wanted, so one walk over two schemas is enough for every way in which schemas may differ
without a difference to what is compiled.
-/

namespace NestedTables

variable {η ε α β : Type}

/-- The registry with another log. -/
def Registry.withLog (log : List Event) (r : Registry η) : Registry η :=
  { r with log := log }

namespace Registry

variable (log : List Event) (r : Registry η)

@[simp] theorem drafts_withLog : (r.withLog log).drafts = r.drafts := rfl

@[simp] theorem columnsOf_withLog (table : String) :
    (r.withLog log).columnsOf table = r.columnsOf table := rfl

@[simp] theorem descriptors_withLog : (r.withLog log).descriptors = r.descriptors := rfl

@[simp] theorem describe_withLog (d : Draft η) : (r.withLog log).describe d = r.describe d := rfl

end Registry

namespace Walk

/-! ### Two runs -/

/-- Whether two walks that set out from one registry, but for the log, give one result, of which
`Q` holds, and leave one registry, but for the log. -/
def Alike (Q : α → Prop) (m m' : Walk η ε α) : Prop :=
  ∀ (r : Registry η) (log : List Event), ∃ log',
    m'.run.run (r.withLog log) = ((m.run.run r).1, (m.run.run r).2.withLog log') ∧
      ∀ a, (m.run.run r).1 = .ok a → Q a

variable {Q : α → Prop} {Q' : β → Prop} {m m' : Walk η ε α} {f f' : α → Walk η ε β}

theorem Alike.mono {P : α → Prop} (h : Alike Q m m') (hP : ∀ a, Q a → P a) : Alike P m m' := by
  intro r log
  obtain ⟨log', hrun, hQ⟩ := h r log
  exact ⟨log', hrun, fun a ha => hP a (hQ a ha)⟩

theorem Alike.pure {a : α} (h : Q a) : Alike Q (Pure.pure a : Walk η ε α) (Pure.pure a) :=
  fun _ log => ⟨log, rfl, fun _ hb => Except.ok.inj hb ▸ h⟩

theorem Alike.throw (e : Failure ε) : Alike Q (throw e : Walk η ε α) (throw e) := by
  refine fun _ log => ⟨log, rfl, fun a ha => ?_⟩
  cases ha

/-- **Walks after walks that do the same.** -/
theorem Alike.bind (h : Alike Q m m') (hf : ∀ a, Q a → Alike Q' (f a) (f' a)) :
    Alike Q' (m >>= f) (m' >>= f') := by
  intro r log
  obtain ⟨log', hrun, hQ⟩ := h r log
  rw [run_bind, run_bind, hrun]
  generalize m.run.run r = out at hQ
  rcases out with ⟨e | a, last⟩
  · refine ⟨log', rfl, fun b hb => ?_⟩
    cases hb
  · exact hf a (hQ a rfl) last log'

/-- A walk that begins with a look at the registry. -/
theorem Alike.get_bind {g g' : Registry η → Walk η ε β}
    (h : ∀ r log, Alike Q' (g r) (g' (r.withLog log))) :
    Alike Q' (get >>= g) (get >>= g') :=
  fun r log => h r log r log

/-- A change to the registry that does not depend on the log. -/
theorem Alike.modify {g g' : Registry η → Registry η}
    (h : ∀ r log, ∃ log', g' (r.withLog log) = (g r).withLog log') :
    Alike (fun _ => True) (modify g : Walk η ε Unit) (modify g') := by
  intro r log
  obtain ⟨log', hg⟩ := h r log
  exact ⟨log', congrArg (Prod.mk (Except.ok ())) hg, fun _ _ => trivial⟩

theorem Alike.noteAll (es es' : List Event) :
    Alike (fun _ => True) (noteAll es : Walk η ε Unit) (noteAll es') :=
  .modify fun _ _ => ⟨_, rfl⟩

theorem Alike.described (r : Reading α) :
    Alike (fun a => r = .ok a) (described r : Walk η ε α) (described r) := by
  cases r with
  | ok a => exact .pure rfl
  | error ps => exact .throw _

theorem Alike.accepted (r : Except SchemaError α) :
    Alike (fun _ => True) (accepted r : Walk η ε α) (accepted r) := by
  cases r with
  | ok a => exact .pure trivial
  | error e => exact .throw _

/-! ### The end of a visit -/

variable {settings settings' : Settings} {binder : Binder η ε} {node node' : Fields}

/-- Registering a table is the same if its names are. -/
theorem alike_emit (hforeign : settings'.foreignKey = settings.foreignKey)
    (hidentity : identity settings' node' = identity settings node) (at_ : Pointer)
    (rewritten : Entries Scalar Fragment) (relations : Entries Scalar (Relation η)) :
    Alike (fun _ => True) (emit ⟨settings, binder⟩ at_ node rewritten relations)
      (emit ⟨settings', binder⟩ at_ node' rewritten relations) := by
  unfold emit
  rw [hidentity]
  refine .bind (.described _) fun i _ => .bind (.described _) fun named _ => .get_bind fun r log => ?_
  simp only [Registry.columnsOf_withLog, Registry.descriptors_withLog, Registry.describe_withLog,
    Registry.drafts_withLog, hforeign]
  generalize hdraft : (draftOf ⟨settings, binder⟩ i rewritten named).withColumns
    (r.columnsOf i.tableName) settings.foreignKey = draft
  have hdraft' : (draftOf ⟨settings', binder⟩ i rewritten named).withColumns
    (r.columnsOf i.tableName) settings.foreignKey = draft := hdraft
  rw [hdraft']
  cases binder.create r.descriptors (r.describe draft) with
  | error reason => exact .throw _
  | ok handle => exact .bind (.modify fun _ _ => ⟨_, rfl⟩) fun _ _ => .pure trivial

/-- The end of the visit of an array of tables is the same if its join is, where it has one. -/
theorem alike_finishArray (hforeign : settings'.foreignKey = settings.foreignKey)
    {ctx : Option Context} {step : Option Step}
    (hjoin : ∀ owner name, ctx = some owner → step = some (.property name) →
      joinOf settings' owner node' = joinOf settings owner node)
    (at_ : Pointer) (target : Target η) (schema : Fragment)
    (relations : Entries Scalar (Relation η)) :
    Alike (fun _ => True)
      (finishArray ⟨settings, binder⟩ ctx step at_ node target schema relations)
      (finishArray ⟨settings', binder⟩ ctx step at_ node' target schema relations) := by
  unfold finishArray
  split
  · next name owner =>
    rw [hjoin owner name rfl rfl]
    refine .bind (.described _) fun join _ => .bind (.modify fun r log => ?_) fun _ _ =>
      .bind (.accepted _) fun _ _ => .pure trivial
    cases join <;> simp only [requestFor, hforeign] <;> exact ⟨_, rfl⟩
  · exact .bind (.noteAll _ _) fun _ _ => .pure trivial

/-- What is left to do when the properties of a node have been put together. -/
def closing (setting : Setting η ε) (ctx : Option Context) (step : Option Step) (at_ : Pointer)
    (node : Fields) (items : Option (Visit η)) (kept : Entries Scalar Fragment)
    (relations : Entries Scalar (Relation η)) : Walk η ε (Visit η) :=
  let kept := items.elim kept fun result => kept.put (.text "items") result.schema
  if node.isTable then emit setting at_ node kept relations
  else match node.kind, items.bind Visit.table with
    | .arrayOfTable, some target =>
      finishArray setting ctx step at_ node target (.map kept) relations
    | _, _ => return { schema := .map kept, relations := relations }

theorem finish_eq_closing (setting : Setting η ε) (ctx : Option Context) (step : Option Step)
    (at_ : Pointer) (node : Fields) (results : Entries Step (Visit η))
    (relations : Entries Scalar (Relation η)) :
    finish setting ctx step at_ node results relations =
      let kept := withoutOverrides setting.settings node
      let close := closing setting ctx step at_ node (results.get? .items)
      match node.mapping? "properties" with
      | none => close kept relations
      | some properties =>
        accepted (rebuild setting ctx at_ results properties [] relations) >>= fun rebuilt =>
          close (kept.put propertiesKey (.map rebuilt.1)) rebuilt.2 := by
  unfold finish closing
  cases node.mapping? "properties" with
  | none => cases results.get? .items <;> rfl
  | some properties =>
    simp only
    generalize rebuild setting ctx at_ results properties [] relations = rebuilt
    cases rebuilt with
    | error e => rfl
    | ok rebuilt => cases results.get? .items <;> rfl

section Visit

variable {R : Bool → Option Step → Fields → Fields → Prop} {inside : Bool} {step : Option Step}
  {results : Entries Step (Visit η)} {ctx : Option Context} {at_ : Pointer}

/-- The properties of two nodes are rebuilt in the same way if every property that is a node has a
result. -/
theorem rebuild_congr (hforeign : settings'.foreignKey = settings.foreignKey)
    {ps ps' : Fields} (h : List.Forall₂
      (fun e e' => e.1 = e'.1 ∧ (e.2 = e'.2 ∨ (results.get? (.property e.1)).isSome)) ps ps')
    (columns : Entries Scalar Fragment) (relations : Entries Scalar (Relation η)) :
    rebuild ⟨settings', binder⟩ ctx at_ results ps' columns relations =
      rebuild ⟨settings, binder⟩ ctx at_ results ps columns relations := by
  induction h generalizing columns relations with
  | nil => rfl
  | @cons e e' _ _ he _ ih =>
    obtain ⟨name, v⟩ := e
    obtain ⟨_, v'⟩ := e'
    obtain ⟨rfl, hvalue⟩ := he
    rw [rebuild, rebuild, hforeign]
    simp only [ih]
    cases hget : results.get? (.property name) with
    | none =>
      obtain rfl : v = v' := by simpa [hget] using hvalue
      rfl
    | some result => rfl

/-- What is kept of two nodes that correspond is the same, when the places of the nodes below have
been filled. -/
theorem sameBut_withoutOverrides (h : node.Corresponds settings settings' R inside step node')
    (hd : Entries.Distinct node) :
    Entries.SameBut (fun k => ∃ key, (key = "properties" ∨ key = "items") ∧ k = .text key ∧
        (node.mapping? key).isSome = true)
      (withoutOverrides settings node) (withoutOverrides settings' node') := by
  have hbelow : ∀ e ∈ node.filter (fun e => settings.keeps e.1), Fields.Branches e →
      ∃ key, (key = "properties" ∨ key = "items") ∧ e.1 = .text key ∧
        (node.mapping? key).isSome = true := by
    rintro ⟨k, v⟩ he ⟨hk, hv⟩
    obtain ⟨key, hkey, rfl⟩ : ∃ key, (key = "properties" ∨ key = "items") ∧ k = .text key :=
      hk.elim (fun hk => ⟨_, .inl rfl, hk⟩) fun hk => ⟨_, .inr rfl, hk⟩
    have hget : node.value? key = some v := Entries.get?_eq_some_of_mem hd (List.mem_of_mem_filter he)
    exact ⟨key, hkey, rfl, by rwa [Fields.mapping?, hget, Option.bind_some]⟩
  refine Entries.SameBut.mapValues ?_ _
  exact ((List.forall₂_and_left _ _).mpr ⟨hbelow, h.kept⟩).imp
    fun _ _ he => ⟨he.2.1, he.2.2.imp_right he.1⟩

/-- What is left to do for two nodes that correspond is the same, when what is kept of them differs
in the place of the items at most. -/
theorem alike_closing (h : node.Corresponds settings settings' R inside step node')
    (hforeign : settings'.foreignKey = settings.foreignKey)
    (hresult : (node.mapping? "items").isSome = true → (results.get? .items).isSome = true)
    (hctx : ctx.isSome = true → node.isTable = true ∨ inside = true)
    {kept kept' : Entries Scalar Fragment} (hdistinct : Entries.Distinct kept)
    (hsame : Entries.SameBut
      (fun k => k = .text "items" ∧ (node.mapping? "items").isSome = true) kept kept')
    (relations : Entries Scalar (Relation η)) :
    Alike (fun _ => True)
      (closing ⟨settings, binder⟩ ctx step at_ node (results.get? .items) kept relations)
      (closing ⟨settings', binder⟩ ctx step at_ node' (results.get? .items) kept' relations) := by
  have hfilled : (results.get? .items).elim kept (fun result =>
        kept.put (.text "items") result.schema) =
      (results.get? .items).elim kept' fun result =>
        kept'.put (.text "items") result.schema := by
    cases hitems : results.get? .items with
    | some result => exact (hsame.put hdistinct _ _).eq fun k hk => hk.2 hk.1.1
    | none =>
      refine hsame.eq fun k hk => ?_
      have hget := hresult hk.2
      simp [hitems] at hget
  unfold closing
  rw [hfilled, h.isTable, h.kind]
  cases htable : node.isTable with
  | true => exact alike_emit hforeign h.identity _ _ _
  | false =>
    simp only [Bool.false_eq_true, if_false]
    split
    · next hkind _ =>
      refine alike_finishArray hforeign (fun owner name howner hname => ?_) _ _ _ _
      have hinside := (hctx (by simp [howner])).resolve_left (by simp [htable])
      exact h.join hinside ⟨name, hname⟩ hkind owner
    · exact .pure trivial

/-- **The end of the visit of nodes that correspond** is the same if every child has a result. -/
theorem alike_finish (h : node.Corresponds settings settings' R inside step node')
    (hd : Entries.Distinct node) (hforeign : settings'.foreignKey = settings.foreignKey)
    (hkeys : Entries.keys results = node.children.map (·.1))
    (hctx : ctx.isSome = true → node.isTable = true ∨ inside = true)
    (relations : Entries Scalar (Relation η)) :
    Alike (fun _ => True) (finish ⟨settings, binder⟩ ctx step at_ node results relations)
      (finish ⟨settings', binder⟩ ctx step at_ node' results relations) := by
  have hresult : ∀ c ∈ node.children, (results.get? c.1).isSome = true := by
    intro c hc
    rw [← Entries.mem_keys_iff, hkeys]
    exact List.mem_map.mpr ⟨c, hc, rfl⟩
  have hitems : (node.mapping? "items").isSome = true → (results.get? .items).isSome = true := by
    intro hsome
    obtain ⟨items, hitems⟩ := Option.isSome_iff_exists.mp hsome
    exact hresult _ (Fields.items_mem_children_iff.mpr hitems)
  have hkept := sameBut_withoutOverrides h hd
  have hdistinct : Entries.Distinct (withoutOverrides settings node) := by
    rw [withoutOverrides, Entries.Distinct, Entries.keys_mapValues]
    exact hd.filter _
  rw [finish_eq_closing, finish_eq_closing]
  have hproperties := h.properties
  generalize hps : node.mapping? "properties" = ps, node'.mapping? "properties" = ps'
    at hproperties ⊢
  cases hproperties with
  | none =>
    refine alike_closing h hforeign hitems hctx hdistinct (hkept.mono ?_) _
    rintro k ⟨key, rfl | rfl, rfl, hsome⟩
    · simp [hps] at hsome
    · exact ⟨rfl, hsome⟩
  | @some ps ps' hall =>
    have hsame : List.Forall₂ (fun e e' => e.1 = e'.1 ∧
        (e.2 = e'.2 ∨ (results.get? (.property e.1)).isSome = true)) ps ps' := by
      refine ((List.forall₂_and_left _ _).mpr ⟨fun e he => he, hall⟩).imp ?_
      rintro ⟨name, v⟩ e' ⟨hmem, hname, ⟨-, heq⟩ | ⟨sub, -, hv, -, -⟩⟩
      · exact ⟨hname, .inl heq⟩
      · obtain rfl : v = .map sub := hv
        exact ⟨hname, .inr (hresult _ (Fields.property_mem_children_iff.mpr ⟨ps, hps, hmem⟩))⟩
    simp only [rebuild_congr hforeign hsame]
    refine .bind (.accepted _) fun rebuilt _ =>
      alike_closing h hforeign hitems hctx (hdistinct.put _ _)
        ((hkept.put hdistinct _ _).mono ?_) _
    rintro k ⟨⟨key, rfl | rfl, rfl, hsome⟩, hne⟩
    · exact absurd rfl hne
    · exact ⟨rfl, hsome⟩

/-! ### The walk -/

/-- A node that belongs to a table is one, or the node above it belongs to one. -/
theorem isSome_contextOf {above : Option Context} (h : contextOf settings above step node = .ok ctx)
    (hsome : ctx.isSome = true) : node.isTable = true ∨ above.isSome = true := by
  unfold contextOf at h
  split at h
  · next htable => exact .inl htable
  · obtain rfl := Except.ok.inj h
    cases above with
    | some _ => exact .inr rfl
    | none => simp at hsome

/-- The visits of children are the same one after the other. -/
theorem alike_visitAll {children children' : List (Step × Fields)}
    (h : List.Forall₂ (fun c c' => c.1 = c'.1 ∧ ∀ at_, Alike (fun _ => True)
      (visit ⟨settings, binder⟩ ctx (some c.1) at_ (Tree.ofFields c.2))
      (visit ⟨settings', binder⟩ ctx (some c.1) at_ (Tree.ofFields c'.2))) children children')
    (relations : Entries Scalar (Relation η)) :
    Alike (fun out => Entries.keys out.1 = children.map (·.1))
      (visitAll ⟨settings, binder⟩ ctx at_ (children.map fun c => (c.1, Tree.ofFields c.2))
        relations)
      (visitAll ⟨settings', binder⟩ ctx at_ (children'.map fun c => (c.1, Tree.ofFields c.2))
        relations) := by
  induction h generalizing relations with
  | nil => exact .pure rfl
  | @cons c c' _ _ hc _ ih =>
    obtain ⟨step, sub⟩ := c
    obtain ⟨_, sub'⟩ := c'
    obtain ⟨rfl, hvisit⟩ := hc
    simp only [List.map_cons, visitAll]
    refine .bind (hvisit _) fun result _ => ?_
    split
    · exact .bind (.pure trivial) fun relations (_ : True) =>
        .bind (ih relations) fun out hout => .pure (congrArg (List.cons step) hout)
    · exact .bind (.accepted _) fun relations _ =>
        .bind (ih relations) fun out hout => .pure (congrArg (List.cons step) hout)

variable (hR : ∀ {inside step node node'}, R inside step node node' →
  node.Corresponds settings settings' R inside step node')
include hR

/-- **The visits of related nodes do the same.** -/
theorem alike_visit (hforeign : settings'.foreignKey = settings.foreignKey)
    (hd : ∀ n, node.Walked n → Entries.Distinct n) (h : R inside step node node')
    {above : Option Context} (habove : above.isSome = true → inside = true) (at_ : Pointer) :
    Alike (fun _ => True) (visit ⟨settings, binder⟩ above step at_ (Tree.ofFields node))
      (visit ⟨settings', binder⟩ above step at_ (Tree.ofFields node')) := by
  induction node using Fields.walkInduction generalizing inside step node' above at_ with
  | h node ih =>
    have hcorresponds := hR h
    have hcontext : contextOf settings' above step node' = contextOf settings above step node := by
      unfold contextOf
      rw [hcorresponds.isTable, hcorresponds.identity]
    rw [Tree.ofFields_eq node, Tree.ofFields_eq node']
    simp only [visit, hcorresponds.badKey]
    refine .bind (.noteAll _ _) fun _ _ => ?_
    rw [hcontext]
    refine .bind (.described _) fun ctx hctx => ?_
    have hinside : ctx.isSome = true → node.isTable = true ∨ inside = true := by
      exact fun hsome => (isSome_contextOf hctx hsome).imp_right habove
    cases badKey? node with
    | some key => exact .throw _
    | none =>
      refine .bind (alike_visitAll ?_ []) fun out hout => ?_
      · refine ((List.forall₂_and_left _ _).mpr ⟨fun c hc => hc, hcorresponds.children⟩).imp ?_
        rintro c c' ⟨hc, hstep, hrelated⟩
        refine ⟨hstep, fun at_ => ih c hc (fun n hn => hd n (hn.of_child hc)) hrelated ?_ at_⟩
        simpa [Bool.or_eq_true] using hinside
      · exact alike_finish hcorresponds (hd node (.self node)) hforeign hout hinside out.2

end Visit

end Walk

variable {settings settings' : Settings} {R : Bool → Option Step → Fields → Fields → Prop}

/-- **The walks through related schemas** give one result and leave one registry, but for the
log. -/
theorem walkSchema_alike (hR : ∀ {inside step node node'}, R inside step node node' →
      node.Corresponds settings settings' R inside step node')
    (hforeign : settings'.foreignKey = settings.foreignKey) {schema schema' : Fields}
    (hd : ∀ n, schema.Walked n → Entries.Distinct n) (h : R false none schema schema')
    (binder : Binder η ε) (log log' : List Event) : ∃ last,
    walkSchema binder settings' schema' log' =
      ((walkSchema binder settings schema log).1,
        (walkSchema binder settings schema log).2.withLog last) := by
  have hvisit : Walk.Alike (fun _ => True)
      (Walk.visit ⟨settings, binder⟩ none none [] (Tree.ofFields schema))
      (Walk.visit ⟨settings', binder⟩ none none [] (Tree.ofFields schema')) :=
    Walk.alike_visit hR hforeign hd h (by simp) []
  obtain ⟨last, hrun, -⟩ := hvisit { log := log } log'
  exact ⟨last, hrun⟩

/-- **The compilations of related schemas show the same**, but for the log, if no override is at
fault in either. -/
theorem compile_alike (hR : ∀ {inside step node node'}, R inside step node node' →
      node.Corresponds settings settings' R inside step node')
    (hforeign : settings'.foreignKey = settings.foreignKey) {schema schema' : Fields}
    (hd : ∀ n, schema.Walked n → Entries.Distinct n) (h : R false none schema schema')
    (binder : Binder η ε) (hnone : (Override.checkAll settings schema).refusal? = none)
    (hnone' : (Override.checkAll settings' schema').refusal? = none) :
    let outcome := compile binder settings (.map schema)
    let outcome' := compile binder settings' (.map schema')
    outcome'.result = outcome.result ∧ outcome'.tables = outcome.tables := by
  obtain ⟨last, hwalk⟩ := walkSchema_alike hR hforeign hd h binder (checkLog settings schema)
    (checkLog settings' schema')
  rw [compile_of_refusal?_eq_none binder hnone, compile_of_refusal?_eq_none binder hnone', hwalk]
  rcases walkSchema binder settings schema (checkLog settings schema) with ⟨e | root, r⟩
  · exact ⟨rfl, rfl⟩
  · exact ⟨rfl, rfl⟩

end NestedTables
