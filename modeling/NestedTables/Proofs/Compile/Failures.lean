import NestedTables.Proofs.Compile.Compilation

/-!
# The failures of a compilation

A compilation can fail in three ways. An override is at fault; then the first error that the
checks have found is reported, and the binder has not been asked for anything. Or two relations
collide. Or the binder refuses a table; then its reason is the reason of the failure.

Nothing else is possible (`compile_failures`). In particular a compilation never fails because a
name of a table, a join or a relation cannot be read: what the checks accept can be read
(`Override.sound_of_isValid`).
-/

namespace NestedTables

variable {settings : Settings} {schema : Fields}

namespace Override

/-- The first error that the checks find: in a value, or else in a join. -/
def firstError? (settings : Settings) (schema : Fields) : Option Finding :=
  ((check settings schema .values).items ++ (check settings schema .joins).items).find?
    Finding.isError

theorem firstError?_eq_head? :
    firstError? settings schema = (checkAll settings schema).errors.head? := by
  rw [firstError?, Report.errors, List.head?_filter]
  rfl

theorem firstError?_eq_none_iff :
    firstError? settings schema = none ↔ (checkAll settings schema).isValid = true := by
  rw [firstError?, List.find?_eq_none, Report.isValid_iff]
  simp [checkAll, Report.merge]

/-- The schema is refused for the reason that its first error gives. -/
theorem exists_refusal? {first : Finding} (h : firstError? settings schema = some first) :
    ∃ detail, (checkAll settings schema).refusal? =
      some (if first.code = Finding.joinTableCode then .joinTable detail first.pointer
        else .override detail first.pointer) := by
  rw [firstError?_eq_head?, List.head?_eq_some_iff] at h
  obtain ⟨others, herrors⟩ := h
  exact ⟨_, by rw [Report.refusal?, herrors]⟩

/-- A finding is about a visited node. -/
theorem exists_pointer_of_mem_check {rules : RuleGroup} {f : Finding}
    (h : f ∈ (check settings schema rules).items) :
    ∃ n ∈ schema.nodes, f.pointer = .text n.1.written := by
  cases rules with
  | values | joins =>
    obtain ⟨n, hn, hf⟩ := List.mem_flatMap.mp h
    obtain ⟨c, -, rfl⟩ := List.mem_map.mp hf
    exact ⟨n, hn, rfl⟩

end Override

/-- **A compilation fails in known ways only.** If the checks find an error, the first one is
reported with its pointer, as a missing join table if that is its code, and no binder makes a
difference. If they find none, the compilation gives a result, or two relations collide, or the
binder has refused a table and its reason is passed on. -/
theorem compile_failures (hset : settings.IsValid) (hkeyed : schema.isKeyed = true) :
    (∀ first, Override.firstError? settings schema = some first →
      (∃ n ∈ schema.nodes, first.pointer = .text n.1.written) ∧
        ∃ detail, ∀ (η ε : Type) (binder : Binder η ε),
          compile binder settings (.map schema) =
            { result := .error (.schema
                (if first.code = Finding.joinTableCode then .joinTable detail first.pointer
                  else .override detail first.pointer))
              tables := []
              log := checkLog settings schema }) ∧
    (Override.firstError? settings schema = none → ∀ (η ε : Type) (binder : Binder η ε),
      let outcome := compile binder settings (.map schema)
      (∃ models, outcome.result = .ok models) ∨
        (∃ relation p, outcome.result = .error (.schema (.collision relation p))) ∨
          ∃ reason table, outcome.result = .error (.binder reason) ∧
            binder.create outcome.tables table = .error reason) := by
  refine ⟨fun first hfirst => ⟨?_, ?_⟩, fun hnone η ε binder => ?_⟩
  · have hmem := List.mem_of_find?_eq_some hfirst
    rcases List.mem_append.mp hmem with hmem | hmem
    · exact Override.exists_pointer_of_mem_check hmem
    · exact Override.exists_pointer_of_mem_check hmem
  · obtain ⟨detail, hrefusal⟩ := Override.exists_refusal? hfirst
    exact ⟨detail, fun η ε binder => compile_of_errors binder settings schema hrefusal⟩
  · have hends := compile_ends binder hset hkeyed (Override.firstError?_eq_none_iff.mp hnone)
    intro outcome
    change CompileEnds binder settings schema outcome at hends
    clear_value outcome
    cases hends with
    | finished => exact Or.inl ⟨_, rfl⟩
    | collided => exact Or.inr (Or.inl ⟨_, _, rfl⟩)
    | refused _ _ hrefuse => exact Or.inr (Or.inr ⟨_, _, rfl, hrefuse⟩)

/-- A table with an array of tables that is joined through a table that is not there. -/
def strayJoinSchema : Fields :=
  [(.text "$id", .text "post"),
    (.text "properties", .object
      [("tags", .object
        [("type", .text "array"), ("items", .object [("$id", .text "tag")]),
          ("x-relschema-join-through", .object
            [("from", .text "post_tag.post_id"), ("to", .text "post_tag.tag_id")])])])]

/-- A missing join table is reported as one, at the array that names it. -/
theorem compile_failures_strayJoin :
    ({} : Settings).IsValid ∧ strayJoinSchema.isKeyed = true ∧
      ∃ detail, ∀ (η ε : Type) (binder : Binder η ε),
        compile binder {} (.map strayJoinSchema) =
          { result := .error (.schema (.joinTable detail (.text "#/properties/tags")))
            tables := []
            log := checkLog {} strayJoinSchema } := by
  have hkeyed : strayJoinSchema.isKeyed = true := by decide
  have hfirst : Override.firstError? {} strayJoinSchema =
      some (Complaint.finding [.text "properties", .text "tags"]
        (.throughUnknownTable "post_tag")) := by
    rfl
  exact ⟨Settings.isValid_default, hkeyed,
    ((compile_failures Settings.isValid_default hkeyed).1 _ hfirst).2⟩

end NestedTables
