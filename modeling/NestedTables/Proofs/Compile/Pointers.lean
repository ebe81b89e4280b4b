import NestedTables.Proofs.Compile.Failures
import NestedTables.Proofs.Compile.Logged
import NestedTables.Proofs.Schema.Visited

/-!
# The pointers that a compilation shows

A pointer is shown with a finding, with the error that a compilation fails with, and with some facts
of the log. All of them are told while the compilation is at some node, and a visit forms the
pointers of the children as the walk does (`Walk.exists_toldAt`). So each of these pointers is that
of a visited node or of a table right under a keyword of one, and its text leads there
(`compile_pointers`). This holds of a compilation that fails as well, since what it has logged by
then is told by the first of the acts of the schema.
-/

namespace NestedTables

variable {η ε : Type}

/-! ### Facts that are told at a node -/

namespace Event

/-- The pointer that is shown with a fact. -/
def pointer? : Event → Option Value
  | .warned _ p => some p
  | .notVisited at_ | .notAttached at_ _ | .registered _ _ at_ _ => some (.text at_.written)
  | _ => none

/-- Whether a fact is told by the visit of a node: of a table right under it that is not visited, or
of the node itself. -/
inductive ToldAt (at_ : Pointer) (node : Fields) : Event → Prop
  | notVisited {q : Pointer} (hq : q ∈ node.unvisitedTables) :
      ToldAt at_ node (.notVisited (at_ ++ q))
  | notAttached (table : String) : ToldAt at_ node (.notAttached at_ table)
  | registered (table model : String) (relations : Nat) :
      ToldAt at_ node (.registered table model at_ relations)

end Event

namespace Walk

variable (setting : Setting η ε)

theorem toldAt_of_mem_toldLast {ctx : Option Context} {step : Option Step} {at_ : Pointer}
    {node : Fields} {results : Entries Step (Visit Nat)} {e : Event}
    (he : e ∈ toldLast setting ctx step at_ node results) : e.ToldAt at_ node := by
  unfold toldLast at he
  split at he
  · obtain rfl := List.mem_singleton.mp he
    exact .registered _ _ _
  · split at he
    · obtain rfl := List.mem_singleton.mp he
      exact .notAttached _
    · simp at he

/-- **What a visit tells** it tells at the node or at a node below it. -/
theorem exists_toldAt {above : Option Context} {step : Option Step} {at_ : Pointer} {start : Nat}
    {node : Fields} {e : Event}
    (he : e ∈ Act.told (acts setting above step at_ start (Tree.ofFields node))) :
    ∃ n ∈ node.nodes, e.ToldAt (at_ ++ n.1) n.2 := by
  induction node using Fields.childInduction (Q := fun cs =>
      ∀ (ctx : Option Context) (at_ : Pointer) (start : Nat),
        e ∈ Act.told (actsBelow setting ctx at_ start
            (cs.map fun c => (c.1, Tree.ofFields c.2))) →
          ∃ c ∈ cs, ∃ n ∈ c.2.nodes, e.ToldAt (at_ ++ (c.1.path ++ n.1)) n.2)
      generalizing above step at_ start with
  | hnil ctx at_ start h => simp [actsBelow] at h
  | hcons step sub cs hsub hcs ctx at_ start h =>
    rw [List.map_cons, told_actsBelow_cons, List.mem_append] at h
    rcases h with h | h
    · obtain ⟨n, hn, htold⟩ := hsub h
      exact ⟨(step, sub), List.mem_cons_self, n, hn, List.append_assoc .. ▸ htold⟩
    · obtain ⟨c, hc, hbelow⟩ := hcs ctx at_ _ h
      exact ⟨c, List.mem_cons_of_mem _ hc, hbelow⟩
  | hnode node hbelow =>
    rw [told_acts, List.mem_append, List.mem_append] at he
    rw [Fields.nodes_eq_flatMap]
    rcases he with he | he | he
    · obtain ⟨q, hq, rfl⟩ := List.mem_map.mp he
      exact ⟨_, List.mem_cons_self, by simpa using Event.ToldAt.notVisited hq⟩
    · obtain ⟨c, hc, n, hn, htold⟩ := hbelow _ _ _ he
      refine ⟨(c.1.path ++ n.1, n.2), List.mem_cons_of_mem _ (List.mem_flatMap.mpr ⟨c, hc, ?_⟩),
        htold⟩
      exact List.mem_map_of_mem hn
    · exact ⟨_, List.mem_cons_self, by simpa using toldAt_of_mem_toldLast setting he⟩

end Walk

/-! ### What is logged with a pointer -/

namespace Stage

variable {setting : Walk.Setting η ε} {s s' : Stage η} {e : Event}

/-- **An act logs pointers** only with what it tells. -/
theorem Does.mem_log {act : Act} (h : Does setting s act s') (he : e ∈ s'.registry.log) :
    e ∈ s.registry.log ∨ e ∈ Act.told [act] ∨ e.pointer? = none := by
  cases h with
  | note events =>
    refine (List.mem_append.mp he).imp_right fun he => Or.inl ?_
    rwa [Act.told_note, Act.told_nil, List.append_nil]
  | register at_ hanswer =>
    simp only [Stage.register, Registry.register, List.mem_append] at he
    rcases he with (he | he) | he
    · exact Or.inl he
    · split at he
      · obtain rfl := List.mem_singleton.mp he
        exact Or.inr (Or.inr rfl)
      · simp at he
    · refine Or.inr (Or.inl ?_)
      simpa [drafted] using he
  | request table column =>
    simp only [Stage.request, Registry.request, Registry.requestEvents, List.mem_append] at he
    rcases he with he | he | he
    · exact Or.inl he
    · split at he
      · obtain rfl := List.mem_singleton.mp he
        exact Or.inr (Or.inr rfl)
      · simp at he
    · obtain ⟨_, -, rfl⟩ := List.mem_map.mp he
      exact Or.inr (Or.inr rfl)

/-- **A run logs pointers** only with what its acts tell. -/
theorem Performs.mem_log {acts : List Act} (h : Performs setting s acts s')
    (he : e ∈ s'.registry.log) :
    e ∈ s.registry.log ∨ e ∈ Act.told acts ∨ e.pointer? = none := by
  induction h with
  | nil => exact Or.inl he
  | @cons s s₁ s₂ act acts hdoes _ ih =>
    have hcons : Act.told (act :: acts) = Act.told [act] ++ Act.told acts :=
      Act.told_append [act] acts
    rw [hcons, List.mem_append]
    rcases ih he with hbefore | htold | hnone
    · exact (hdoes.mem_log hbefore).imp_right (Or.imp_left Or.inl)
    · exact Or.inr (Or.inl (Or.inr htold))
    · exact Or.inr (Or.inr hnone)

end Stage

variable {settings : Settings} {schema : Fields}

/-- **A compilation logs pointers** when it checks the overrides, and with what the acts of the
schema tell, however it ends. -/
theorem mem_log_compile (hset : settings.IsValid) (hkeyed : schema.isKeyed = true)
    (binder : Binder η ε) {e : Event} (he : e ∈ (compile binder settings (.map schema)).log) :
    e ∈ checkLog settings schema ∨ e ∈ Act.told (compileActs binder settings schema) ∨
      e.pointer? = none := by
  cases hrefusal : (Override.checkAll settings schema).refusal? with
  | some error =>
    rw [compile_of_errors binder settings schema hrefusal] at he
    exact Or.inl he
  | none =>
    have hwalk := Walk.walks_visit (⟨settings, binder⟩ : Walk.Setting η ε) hkeyed
      (fun n hn => Override.sound_of_isValid hset (refusal?_eq_none_iff.mp hrefusal) hn)
      (Stage.start (checkLog settings schema)) none none [] (by simp)
    unfold Walk.Walks at hwalk
    change Walk.Ends _ _ _ _ _
      (walkSchema binder settings schema (checkLog settings schema)) at hwalk
    unfold checkLog at hwalk
    simp only [compile, compileFields, hrefusal] at he
    generalize walkSchema binder settings schema _ = out at hwalk he
    cases hwalk with
    | finished h =>
      rcases List.mem_append.mp he with he | he
      · exact h.mem_log he
      · obtain rfl := List.mem_singleton.mp he
        exact Or.inr (Or.inr rfl)
    -- what has been told before a failure is told by the first of the acts
    | refused hacts h | collided hacts h =>
      have hacts : compileActs binder settings schema = _ := hacts
      rw [hacts, Act.told_append, List.mem_append]
      exact (h.mem_log he).imp_right (Or.imp_left Or.inl)

/-! ### Pointers of findings and errors -/

/-- A finding is about a visited node. -/
theorem Override.exists_pointer_of_mem_checkAll {f : Finding}
    (hf : f ∈ (checkAll settings schema).items) :
    ∃ n ∈ schema.nodes, f.pointer = .text n.1.written := by
  rcases List.mem_append.mp hf with hf | hf
  · exact exists_pointer_of_mem_check hf
  · exact exists_pointer_of_mem_check hf

/-- What is reported when a schema is refused is a finding. -/
theorem Report.exists_of_refusal? {r : Report} {e : SchemaError} (h : r.refusal? = some e) :
    ∃ f ∈ r.items, e.pointer = f.pointer := by
  unfold refusal? at h
  split at h
  · simp at h
  · next first others herrors =>
    obtain rfl := Option.some.inj h
    have hmem : first ∈ r.errors := herrors ▸ List.mem_cons_self
    refine ⟨first, (List.mem_filter.mp hmem).1, ?_⟩
    split <;> rfl

theorem Override.pointer?_of_mem_checkEvents {e : Event} (he : e ∈ checkEvents settings schema) :
    e.pointer? = none := by
  simp only [checkEvents, List.mem_cons, List.not_mem_nil, or_false] at he
  rcases he with rfl | rfl | rfl | rfl | rfl
  iterate 4 rfl
  split <;> rfl

/-- What is logged with a pointer before the walk is a finding. -/
theorem exists_finding_of_mem_checkLog {e : Event} (he : e ∈ checkLog settings schema) {p : Value}
    (hp : e.pointer? = some p) :
    ∃ f ∈ (Override.checkAll settings schema).items, p = f.pointer := by
  rcases List.mem_append.mp he with he | he
  · simp [Override.pointer?_of_mem_checkEvents he] at hp
  · obtain ⟨f, hf, rfl⟩ := List.mem_map.mp he
    exact ⟨f, (List.mem_filter.mp hf).1, (Option.some.inj hp).symm⟩

/-- A node of the region of a table is visited. -/
theorem Tree.exists_mem_nodes_of_region (hkeyed : schema.isKeyed = true) {t : Pointer × Tree}
    (ht : t ∈ (ofFields schema).tables) {n : List Step × Tree} (hn : n ∈ t.2.region) :
    ∃ m ∈ schema.nodes, m.1 = t.1 ++ Pointer.ofWay n.1 := by
  obtain ⟨way, hdown, hway⟩ := exists_down?_of_region hkeyed ht hn
  exact ⟨(_, n.2.fields), (Fields.mem_nodes_iff hkeyed).mpr ⟨way, hdown, rfl⟩, hway⟩

/-- The error of a compilation is about a visited node. -/
theorem exists_pointer_of_result (hset : settings.IsValid) (hkeyed : schema.isKeyed = true)
    (binder : Binder η ε) {e : SchemaError}
    (he : (compile binder settings (.map schema)).result = .error (.schema e)) :
    ∃ n ∈ schema.nodes, e.pointer = .text n.1.written := by
  cases hrefusal : (Override.checkAll settings schema).refusal? with
  | some error =>
    rw [compile_of_errors binder settings schema hrefusal] at he
    obtain rfl : error = e := by simpa using he
    obtain ⟨f, hf, hpointer⟩ := Report.exists_of_refusal? hrefusal
    rw [hpointer]
    exact Override.exists_pointer_of_mem_checkAll hf
  | none =>
    have hends := compile_ends binder hset hkeyed (refusal?_eq_none_iff.mp hrefusal)
    generalize compile binder settings (.map schema) = outcome at hends he
    cases hends with
    | finished | refused => simp at he
    | collided _ _ ht hclash =>
      obtain ⟨-, n, hn, rfl⟩ := hclash
      obtain ⟨m, hm, hpointer⟩ := Tree.exists_mem_nodes_of_region hkeyed ht hn
      obtain rfl := Failure.schema.inj (Except.error.inj he)
      exact ⟨m, hm, by rw [hpointer, SchemaError.pointer]⟩

/-- A pointer in the log is that of a visited node, or leads to a table that is not visited. -/
theorem exists_atText?_of_log (hset : settings.IsValid) (hkeyed : schema.isKeyed = true)
    (binder : Binder η ε) {e : Event} (he : e ∈ (compile binder settings (.map schema)).log)
    {p : Value} (hp : e.pointer? = some p) :
    ∃ n : Pointer × Fields, p = .text n.1.written ∧
      (Value.map schema).atText? n.1.written = some (.map n.2) ∧
      (n ∈ schema.nodes ∨ n.2.isTable = true) := by
  rcases mem_log_compile hset hkeyed binder he with hcheck | htold | hnone
  · obtain ⟨f, hf, hpointer⟩ := exists_finding_of_mem_checkLog hcheck hp
    obtain ⟨n, hn, hat⟩ := Override.exists_pointer_of_mem_checkAll hf
    exact ⟨n, hpointer.trans hat, Fields.atText?_of_mem_nodes hkeyed hn, Or.inl hn⟩
  · obtain ⟨⟨at_, node⟩, hn, hat⟩ := Walk.exists_toldAt _ htold
    rw [List.nil_append] at hat
    cases hat with
    | notVisited hq =>
      obtain ⟨sub, hsub, htable⟩ := Fields.exists_atText?_of_unvisited hkeyed hn hq
      exact ⟨(_, sub), (Option.some.inj hp).symm, hsub, Or.inr htable⟩
    | notAttached | registered =>
      exact ⟨(at_, node), (Option.some.inj hp).symm, Fields.atText?_of_mem_nodes hkeyed hn,
        Or.inl hn⟩
  · simp [hnone] at hp

/-! ### What a pointer denotes -/

/-- **Pointers denote nodes.** The walk of a schema visits what lies at the ends of ways, each once
and before what lies below it. The texts of the pointers are all different, and each leads to the
node it was made for. The pointers of the findings and of the error of a compilation are texts of
visited nodes, and every pointer in its log leads to a node that is visited or to a table that is
not. -/
theorem compile_pointers (hset : settings.IsValid) (hkeyed : schema.isKeyed = true)
    (binder : Binder η ε) :
    let outcome := compile binder settings (.map schema)
    (∀ (p : Pointer) (node : Fields), (p, node) ∈ schema.nodes ↔
      ∃ way, schema.down? way = some node ∧ p = Pointer.ofWay way) ∧
    (schema.nodes.map (·.1)).Nodup ∧
    (∀ (before after : List (Pointer × Fields)) (way more : List Step) (node sub : Fields),
      schema.nodes = before ++ (Pointer.ofWay way, node) :: after → more ≠ [] →
        schema.down? (way ++ more) = some sub → (Pointer.ofWay (way ++ more), sub) ∈ after) ∧
    (schema.nodes.map fun n => n.1.written).Nodup ∧
    (∀ n ∈ schema.nodes, (Value.map schema).atText? n.1.written = some (.map n.2)) ∧
    (∀ f ∈ (Override.checkAll settings schema).items,
      ∃ n ∈ schema.nodes, f.pointer = .text n.1.written) ∧
    (∀ e, outcome.result = .error (.schema e) →
      ∃ n ∈ schema.nodes, e.pointer = .text n.1.written) ∧
    ∀ e ∈ outcome.log, ∀ p, e.pointer? = some p → ∃ n : Pointer × Fields,
      p = .text n.1.written ∧ (Value.map schema).atText? n.1.written = some (.map n.2) ∧
        (n ∈ schema.nodes ∨ n.2.isTable = true) := by
  intro outcome
  refine ⟨fun p node => Fields.mem_nodes_iff hkeyed, Fields.nodup_nodes hkeyed, ?_,
    Fields.nodup_written_nodes hkeyed, fun n => Fields.atText?_of_mem_nodes hkeyed,
    fun f => Override.exists_pointer_of_mem_checkAll,
    fun e => exists_pointer_of_result hset hkeyed binder, ?_⟩
  · intro before after way more node sub hnodes hmore hsub
    exact Fields.mem_after_of_down? hkeyed hnodes hmore hsub
  · intro e he p hp
    exact exists_atText?_of_log hset hkeyed binder he hp

/-- A shop whose property names look like parts of a pointer, with a name that is left blank. -/
def oddlyNamedSchema : Fields :=
  [(.text "$id", .text "shop"),
    (.text "properties", .object
      [("~1", .object [("$id", .text "tilde")]),
        ("a/b", .object [("$id", .text "slash"), ("x-relschema-id-column", .text " ")]),
        ("", .object [("items", .object [("properties", .object [("items", .object [])])])])])]

/-- The pointers into a shop, and where one leads that has been written with two escapes. -/
theorem compile_pointers_shop :
    ({} : Settings).IsValid ∧ oddlyNamedSchema.isKeyed = true ∧
      (oddlyNamedSchema.nodes.map fun n => n.1.written) =
        ["#", "#/properties/~01", "#/properties/a~1b", "#/properties/",
          "#/properties//items", "#/properties//items/properties/items"] ∧
      (oddlyNamedSchema.nodes.map fun n => n.1.written).Nodup ∧
      ∀ n ∈ oddlyNamedSchema.nodes,
        (Value.map oddlyNamedSchema).atText? n.1.written = some (.map n.2) := by
  have hkeyed : oddlyNamedSchema.isKeyed = true := by decide
  have hpointers := compile_pointers Settings.isValid_default hkeyed
    (Binder.counting : Binder Nat Empty)
  exact ⟨Settings.isValid_default, hkeyed, by decide, hpointers.2.2.2.1, hpointers.2.2.2.2.1⟩

end NestedTables
