import NestedTables.Proofs.Compile.Logged
import NestedTables.Proofs.Schema.Unvisited

/-!
# Tables that a compilation reports as not visited

For every node that it visits, a compilation reports the tables right under the keywords whose
values it does not go into. Each of them is reported once, under a pointer that leads to it, and
none of them has been registered (`compile_unvisited`). What lies deeper under such a keyword is
not looked for, and can be left out without a word (`compile_unvisited_deeper`).
-/

namespace NestedTables

variable {η ε : Type}

namespace Walk

variable (setting : Setting η ε)

theorem filterMap_unvisited?_toldLast (ctx : Option Context) (step : Option Step) (at_ : Pointer)
    (node : Fields) (results : Entries Step (Visit Nat)) :
    (toldLast setting ctx step at_ node results).filterMap Event.unvisited? = [] := by
  rw [toldLast]
  split
  · rfl
  · split <;> rfl

/-- **The tables that a visit tells of** as not visited are those right under the keywords of the
node and of the nodes below it. -/
theorem filterMap_unvisited?_acts (above : Option Context) (step : Option Step) (at_ : Pointer)
    (start : Nat) (node : Fields) :
    (Act.told (acts setting above step at_ start (Tree.ofFields node))).filterMap
        Event.unvisited? = node.unvisitedPointers.map (at_ ++ ·) := by
  induction node using Fields.childInduction (Q := fun cs =>
      ∀ (ctx : Option Context) (at_ : Pointer) (start : Nat),
        (Act.told (actsBelow setting ctx at_ start
          (cs.map fun c => (c.1, Tree.ofFields c.2)))).filterMap Event.unvisited? =
        (cs.flatMap fun c => c.2.unvisitedPointers.map (c.1.path ++ ·)).map (at_ ++ ·))
      generalizing above step at_ start with
  | hnil => rfl
  | hcons step sub cs hsub hcs ctx at_ start =>
    rw [List.map_cons, told_actsBelow_cons, List.filterMap_append, hsub, hcs, List.flatMap_cons,
      List.map_append, List.map_map]
    simp only [Function.comp_def, List.append_assoc]
  | hnode node hbelow =>
    have hunvisited : (node.unvisitedTables.map fun p => Event.notVisited (at_ ++ p)).filterMap
        Event.unvisited? = node.unvisitedTables.map (at_ ++ ·) := by
      rw [List.filterMap_map]
      exact congrFun List.filterMap_eq_map _
    have hall := hbelow (contextIn setting.settings above step node) at_ start
    rw [told_acts, List.filterMap_append, List.filterMap_append, hunvisited,
      filterMap_unvisited?_toldLast, List.append_nil, Fields.unvisitedPointers_eq, List.map_append]
    exact congrArg _ hall

end Walk

variable {settings : Settings} {schema : Fields}

/-- **The tables that are not visited** are reported for those who look into a compilation: of a
compilation with a result, the facts about them have the pointers of the tables right under the
keywords of the visited nodes that are not gone into, no two of them are written alike, and what
each is written as leads to a table, which is none of those that have been registered. -/
theorem compile_unvisited (hset : settings.IsValid) (hkeyed : schema.isKeyed = true)
    (binder : Binder η ε) {models : Entries String η}
    (hok : (compile binder settings (.map schema)).result = .ok models) :
    let log := (compile binder settings (.map schema)).log
    let reported := log.filterMap Event.unvisited?
    (∀ e ∈ log, e.unvisited?.isSome = true →
      e.level = .debug ∧ e.channel = "relschema.compiler") ∧
    (∀ p, p ∈ reported ↔ ∃ (way : List Step) (n : Fields) (q : Pointer),
      schema.down? way = some n ∧ n.IsUnvisited q ∧ p = Pointer.ofWay way ++ q) ∧
    (reported.map Pointer.written).Nodup ∧
    ∀ p ∈ reported,
      (∃ sub : Fields, (Value.map schema).atText? p.written = some (.map sub) ∧
        sub.isTable = true) ∧
      ∀ at_ ∈ log.filterMap Event.registered?, p.written ≠ at_.written := by
  intro log reported
  have hreported : reported = schema.unvisitedPointers := by
    have hlog : reported = _ := filterMap_log hset hkeyed hok fun _ =>
      Event.isNodal_of_unvisited?
    rw [hlog, compileActs, Walk.filterMap_unvisited?_acts]
    exact List.map_id' _
  rw [hreported]
  refine ⟨fun e _ he => Event.level_of_isNodal (Event.isNodal_of_unvisited? he),
    fun p => Fields.mem_unvisitedPointers_iff hkeyed, ?_, fun p hp => ⟨?_, ?_⟩⟩
  · refine (Fields.nodup_unvisitedPointers hkeyed).map_on fun p hp q hq heq => ?_
    exact Pointer.eq_of_written_eq (Fields.isText_of_mem_unvisitedPointers hkeyed hp)
      (Fields.isText_of_mem_unvisitedPointers hkeyed hq) heq
  · exact Fields.exists_atText?_of_mem hkeyed hp
  · rw [compile_registered hset hkeyed hok]
    intro at_ hat
    obtain ⟨t, ht, rfl⟩ := List.mem_map.mp hat
    exact Fields.written_ne_of_mem_tables hkeyed hp ht

/-- An order that may be an express order with a courier, and that defines a customer. -/
def combinedSchema : Fields :=
  [(.text "$id", .text "order"),
    (.text "anyOf", .list
      [.object [("properties", .object [("courier", .object [("$id", .text "courier")])])]]),
    (.text "definitions", .object
      [("customer", .object [("$id", .text "customer")]), ("amount", .object [])])]

theorem result_combinedSchema :
    (compile (Binder.counting : Binder Nat Empty) {} (.map combinedSchema)).result =
      .ok [("order", 0)] := by
  rfl

/-- **A table can be left out without a word**: a courier lies under one of the alternatives of the
order, and there is no report of it. -/
theorem compile_unvisited_deeper :
    (compile (Binder.counting : Binder Nat Empty) {} (.map combinedSchema)).result =
        .ok [("order", 0)] ∧
      ¬ ∀ keyword ∈ Fields.unvisitedKeywords, ∀ (p : Pointer) (sub : Fields),
        (Value.map combinedSchema).at? (.text keyword :: p) = some (.map sub) →
          sub.isTable = true → .text keyword :: p ∈
            (compile (Binder.counting : Binder Nat Empty) {} (.map combinedSchema)).log.filterMap
              Event.unvisited? := by
  refine ⟨result_combinedSchema, fun h => ?_⟩
  have hcourier := h "anyOf" (by decide) [.text "0", .text "properties", .text "courier"]
    [(.text "$id", .text "courier")] (by rfl) (by decide)
  have hlog : (compile (Binder.counting : Binder Nat Empty) {} (.map combinedSchema)).log.filterMap
      Event.unvisited? = [[.text "definitions", .text "customer"]] := by
    rfl
  rw [hlog] at hcourier
  revert hcourier
  decide

/-- What is reported of an order. -/
theorem compile_unvisited_order :
    ({} : Settings).IsValid ∧ combinedSchema.isKeyed = true ∧
      (compile (Binder.counting : Binder Nat Empty) {} (.map combinedSchema)).result =
        .ok [("order", 0)] ∧
      let log := (compile (Binder.counting : Binder Nat Empty) {} (.map combinedSchema)).log
      let reported := log.filterMap Event.unvisited?
      reported = [[.text "definitions", .text "customer"]] ∧
      ∀ p ∈ reported,
        (∃ sub : Fields, (Value.map combinedSchema).atText? p.written = some (.map sub) ∧
          sub.isTable = true) ∧
        ∀ at_ ∈ log.filterMap Event.registered?, p.written ≠ at_.written := by
  have hkeyed : combinedSchema.isKeyed = true := by decide
  exact ⟨Settings.isValid_default, hkeyed, result_combinedSchema, rfl,
    (compile_unvisited Settings.isValid_default hkeyed Binder.counting
      result_combinedSchema).2.2.2⟩

end NestedTables
