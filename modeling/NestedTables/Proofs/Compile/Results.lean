import NestedTables.Proofs.Compile.RelationNames

/-!
# Results of the children of a node

When the children of a node have been visited their results stand in a list, one for each
step. Two things are said about such lists here.

First, how `Walk.rebuild` and `Walk.finish` read them. They look results up by step; since the
steps are different (`Fields.nodup_steps`), going through the properties and looking up is the
same as going through the results (`Walk.rebuild_eq`).

Second, that the handles play no part: what a node makes of results with other handles is what
it makes of the results, with other handles (`Walk.gathered_map`, `Walk.keptOf_map`,
`Walk.many?_map`).
-/

namespace NestedTables.Walk

variable {η θ ε : Type} (setting : Setting η ε) (ctx : Option Context)

/-! ### Other handles -/

section Handles

variable (f : η → θ) (results : Entries Step (Visit η))

theorem get?_map (step : Step) :
    Entries.get? step (Entries.mapValues (Visit.map f) results) =
      (Entries.get? step results).map (Visit.map f) := by
  simp

theorem handedUp_map :
    handedUp (Entries.mapValues (Visit.map f) results) =
      Entries.mapValues (Relation.map f) (handedUp results) := by
  induction results with
  | nil => rfl
  | cons e results ih =>
    have hcons : handedUp (e :: results) =
        (if e.2.table.isSome then [] else e.2.relations) ++ handedUp results := rfl
    have hcons' : handedUp (Entries.mapValues (Visit.map f) (e :: results)) =
        (if (e.2.map f).table.isSome then [] else (e.2.map f).relations) ++
          handedUp (Entries.mapValues (Visit.map f) results) := rfl
    rw [hcons, hcons', ih]
    cases h : e.2.table <;> simp [Visit.map, h, Entries.mapValues]

theorem one?_map (e : Step × Visit η) :
    one? (setting.words : Setting θ Unit) ctx (e.1, e.2.map f) =
      (one? setting ctx e).map fun r => (r.1, r.2.map f) := by
  obtain ⟨step, schema, relations, table, removed⟩ := e
  cases step <;> cases removed <;> cases table <;> cases ctx <;> rfl

theorem gathered_map :
    gathered (setting.words : Setting θ Unit) ctx (Entries.mapValues (Visit.map f) results) =
      Entries.mapValues (Relation.map f) (gathered setting ctx results) := by
  have hone : (Entries.mapValues (Visit.map f) results).filterMap
      (one? (setting.words : Setting θ Unit) ctx) =
      Entries.mapValues (Relation.map f) (results.filterMap (one? setting ctx)) := by
    rw [Entries.mapValues, List.filterMap_map, Entries.mapValues, List.map_filterMap]
    exact List.filterMap_congr fun e _ => one?_map setting ctx f e
  rw [gathered, handedUp_map, hone, gathered, Entries.mapValues, Entries.mapValues,
    Entries.mapValues, List.map_append]

theorem columnsOf_map (properties : Fields) :
    columnsOf (setting.words : Setting θ Unit) ctx (Entries.mapValues (Visit.map f) results)
      properties = columnsOf setting ctx results properties := by
  have hstep : ∀ columns e, withProperty (setting.words : Setting θ Unit) ctx
      (Entries.mapValues (Visit.map f) results) columns e =
      withProperty setting ctx results columns e := by
    intro columns e
    simp only [withProperty, get?_map]
    cases results.get? (.property e.1) with
    | none => rfl
    | some v =>
      obtain ⟨schema, relations, table, removed⟩ := v
      cases table <;> cases removed <;> cases ctx <;> rfl
  rw [columnsOf, columnsOf, funext fun columns => funext (hstep columns)]

theorem keptOf_map (node : Fields) :
    keptOf (setting.words : Setting θ Unit) ctx node (Entries.mapValues (Visit.map f) results) =
      keptOf setting ctx node results := by
  simp only [keptOf, get?_map, columnsOf_map]
  cases Entries.get? Step.items results <;> rfl

theorem items_map : (Entries.get? Step.items (Entries.mapValues (Visit.map f) results)).bind
    Visit.table = ((Entries.get? Step.items results).bind Visit.table).map (Target.map f) := by
  rw [get?_map]
  cases Entries.get? Step.items results <;> rfl

theorem many?_map (step : Option Step) (node : Fields) :
    many? ctx step node (Entries.mapValues (Visit.map f) results) =
      (many? ctx step node results).map fun m => (m.1, m.2.1, m.2.2.map f) := by
  simp only [many?, items_map]
  cases node.kind <;> cases (Entries.get? Step.items results).bind Visit.table <;>
    rcases step with _ | (_ | _) <;> cases ctx <;> rfl

theorem manyOf_map (step : Option Step) (node : Fields) :
    manyOf (setting.words : Setting θ Unit) ctx step node
        (Entries.mapValues (Visit.map f) results) =
      Entries.mapValues (Relation.map f) (manyOf setting ctx step node results) := by
  rw [manyOf, many?_map, manyOf]
  cases many? ctx step node results <;> rfl

theorem arrayActs_map {κ : Type} (setting : Setting κ ε) (step : Option Step) (at_ : Pointer)
    (node : Fields) :
    arrayActs setting ctx step at_ node (Entries.mapValues (Visit.map f) results) =
      arrayActs setting ctx step at_ node results := by
  simp only [arrayActs, many?_map, items_map]
  cases many? ctx step node results with
  | some m => rfl
  | none => cases node.kind <;> cases (Entries.get? Step.items results).bind Visit.table <;> rfl

end Handles

/-! ### Looking results up -/

section Lookup

variable {ctx} {results : Entries Step (Visit η)}

/-- The relation that a property becomes. -/
def lookOne? (setting : Setting η ε) (ctx : Option Context) (results : Entries Step (Visit η))
    (e : Scalar × Value) : Option (Scalar × Relation η) :=
  (results.get? (.property e.1)).bind fun v => one? setting ctx (.property e.1, v)

/-- Rebuilding the properties attaches the relations to the tables among them, one after the
other, all at the same pointer. -/
theorem rebuild_eq_merge (at_ : Pointer) (properties : Fields)
    (columns : Entries Scalar Fragment) (acc : Entries Scalar (Relation η)) :
    rebuild setting ctx at_ results properties columns acc =
      (merge acc (properties.filterMap (lookOne? setting ctx results)) at_).map fun relations =>
        (properties.foldl (withProperty setting ctx results) columns, relations) := by
  induction properties generalizing columns acc with
  | nil => rfl
  | cons e properties ih =>
    obtain ⟨name, property⟩ := e
    rw [rebuild, List.filterMap_cons, List.foldl_cons]
    cases hget : results.get? (.property name) with
    | none => simp [lookOne?, withProperty, hget, ih]
    | some v =>
      obtain ⟨schema, relations, table, removed⟩ := v
      cases removed with
      | true => simp [lookOne?, withProperty, hget, one?, ih]
      | false =>
        cases table with
        | none => simp [lookOne?, withProperty, hget, one?, ih]
        | some target =>
          cases ctx with
          | none => simp [lookOne?, withProperty, hget, one?, ih]
          | some owner =>
            simp only [lookOne?, hget, Option.bind_some, one?, merge, List.foldlM_cons,
              withProperty, Bool.false_eq_true, if_false]
            cases attach acc name (toOne setting owner name target) at_ with
            | error e => rfl
            | ok acc' => exact ih _ acc'

/-- What is reached by no property becomes no relation to one. -/
theorem filterMap_one?_of_items (h : ∀ e ∈ results, e.1 = .items) :
    results.filterMap (one? setting ctx) = [] := by
  rw [List.filterMap_eq_nil_iff]
  intro e he
  simp [one?, h e he]

/-- The result of another property does not count. -/
theorem lookOne?_cons_of_ne {name : Scalar} {result : Visit η} {e : Scalar × Value}
    (hne : name ≠ e.1) :
    lookOne? setting ctx ((.property name, result) :: results) e =
      lookOne? setting ctx results e := by
  have hstep : Step.property name ≠ Step.property e.1 := fun heq => hne (Step.property.inj heq)
  rw [lookOne?, Entries.get?_cons, if_neg hstep, lookOne?]

/-- Looking up the properties that are nodes is going through the results of the properties. -/
theorem filterMap_lookOne? {properties : Fields} (hd : Entries.Distinct properties)
    {tail : List Step} (htail : ∀ step ∈ tail, step = .items)
    (hkeys : Entries.keys results =
      ((Fields.mappings properties).map fun e => Step.property e.1) ++ tail) :
    properties.filterMap (lookOne? setting ctx results) =
      results.filterMap (one? setting ctx) := by
  induction properties generalizing results with
  | nil =>
    rw [List.filterMap_nil, filterMap_one?_of_items]
    intro e he
    have hk : e.1 ∈ Entries.keys results := List.mem_map.mpr ⟨e, he, rfl⟩
    exact htail _ (by simpa [hkeys, Fields.mappings] using hk)
  | cons e properties ih =>
    obtain ⟨name, v⟩ := e
    obtain ⟨hname, hd⟩ : name ∉ Entries.keys properties ∧ Entries.Distinct properties := by
      simpa [Entries.Distinct, Entries.keys] using hd
    have hnot : Step.property name ∉
        ((Fields.mappings properties).map fun e => Step.property e.1) ++ tail := by
      rw [List.mem_append, not_or]
      constructor
      · intro hmem
        obtain ⟨e, he, heq⟩ := List.mem_map.mp hmem
        refine hname ((Fields.keys_mappings_sublist properties).subset ?_)
        exact List.mem_map.mpr ⟨e, he, Step.property.inj heq⟩
      · intro hmem
        exact absurd (htail _ hmem) (by simp)
    -- a property that is no node has no result, and a node has the first one
    cases hv : v.fields? with
    | none =>
      have hmappings : Fields.mappings ((name, v) :: properties) = Fields.mappings properties := by
        simp [Fields.mappings, hv]
      rw [hmappings] at hkeys
      have hnone : lookOne? setting ctx results (name, v) = none := by
        rw [lookOne?, Entries.get?_eq_none_iff.mpr (hkeys ▸ hnot)]
        rfl
      rw [List.filterMap_cons_none hnone]
      exact ih hd hkeys
    | some sub =>
      have hmappings : Fields.mappings ((name, v) :: properties) =
          (name, sub) :: Fields.mappings properties := by
        simp [Fields.mappings, hv]
      rw [hmappings] at hkeys
      cases results with
      | nil => simp [Entries.keys] at hkeys
      | cons first rest =>
        obtain ⟨step, result⟩ := first
        obtain ⟨rfl, hrest⟩ : step = .property name ∧ Entries.keys rest =
            ((Fields.mappings properties).map fun e => Step.property e.1) ++ tail := by
          simpa [Entries.keys] using hkeys
        have hhead : lookOne? setting ctx ((.property name, result) :: rest) (name, v) =
            one? setting ctx (.property name, result) := by
          simp [lookOne?]
        have hsame : ∀ e ∈ properties,
            lookOne? setting ctx ((.property name, result) :: rest) e =
              lookOne? setting ctx rest e := by
          intro e he
          refine lookOne?_cons_of_ne setting ?_
          rintro rfl
          exact hname (List.mem_map.mpr ⟨e, he, rfl⟩)
        rw [List.filterMap_cons, List.filterMap_cons, hhead, List.filterMap_congr hsame,
          ih hd hrest]

variable {node properties : Fields}

/-- **Rebuilding the properties** attaches the relations to the tables among the results. -/
theorem rebuild_eq (hkeyed : node.isKeyed = true)
    (hproperties : node.mapping? "properties" = some properties)
    (hkeys : Entries.keys results = node.children.map (·.1)) (at_ : Pointer)
    (acc : Entries Scalar (Relation η)) :
    rebuild setting ctx at_ results properties [] acc =
      (merge acc (results.filterMap (one? setting ctx)) at_).map fun relations =>
        (columnsOf setting ctx results properties, relations) := by
  have hd := ((Fields.isKeyed_iff properties).mp (Fields.isKeyed_of_mapping? hkeyed hproperties)).1
  have hsteps : Entries.keys results = (properties.mappings.map fun e => Step.property e.1) ++
      (node.mapping? "items").toList.map fun _ => Step.items := by
    rw [hkeys, Fields.children_eq, Fields.subschemas, hproperties]
    simp [Function.comp_def]
  have htail : ∀ step ∈ (node.mapping? "items").toList.map fun _ => Step.items,
      step = .items := by
    intro step hstep
    obtain ⟨_, _, rfl⟩ := List.mem_map.mp hstep
    rfl
  rw [rebuild_eq_merge, filterMap_lookOne? setting hd htail hsteps, columnsOf]

/-- Without properties no child becomes a relation. -/
theorem filterMap_one?_of_no_properties (hproperties : node.mapping? "properties" = none)
    (hkeys : Entries.keys results = node.children.map (·.1)) :
    results.filterMap (one? setting ctx) = [] := by
  refine filterMap_one?_of_items setting fun e he => ?_
  have hmem : e.1 ∈ node.children.map (·.1) := hkeys ▸ List.mem_map.mpr ⟨e, he, rfl⟩
  rw [Fields.children_eq, Fields.subschemas, hproperties] at hmem
  obtain ⟨_, hc, heq⟩ := List.mem_map.mp hmem
  simp only [Option.getD_none, Fields.mappings, List.filterMap_nil, List.map_nil,
    List.nil_append, List.mem_map] at hc
  obtain ⟨_, _, rfl⟩ := hc
  exact heq.symm

end Lookup

end NestedTables.Walk
