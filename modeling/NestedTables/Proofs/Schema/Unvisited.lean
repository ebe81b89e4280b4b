import NestedTables.Proofs.Schema.Pointer

/-!
# Tables under keywords that are not visited

A walk does not go into the values of some keywords. Under them it looks no further than one key:
at the value of the keyword, and unless that is a table itself, at what stands in its list or in
its mapping. `Fields.IsUnvisited` says of a pointer that it leads to a table that is found in this
way, and `Fields.unvisitedTables` has these pointers, each once (`Fields.mem_unvisitedTables_iff`,
`Fields.nodup_unvisitedTables`).

Over all nodes of a schema that a walk visits, the pointers stay different, and none of them is
that of a table the walk visits, since the way to such a table goes through other keywords.

The text of such a pointer leads to the table (`Fields.exists_atText?_of_mem`); it may lead into a
list, where the key is a place in digits.
-/

namespace NestedTables

/-! ### Tables in the value of a keyword -/

namespace Value

/-- Whether a pointer leads to a table that is found in the value of a keyword: to the value itself,
or else to what stands in it, as in a list or in a mapping. -/
def HasTableAt (v : Value) (q : Pointer) : Prop :=
  ∃ sub : Fields, v.at? q = some (.map sub) ∧ sub.isTable = true ∧
    (q = [] ∨ v.isTable = false ∧ ∃ k, q = [k])

variable {v : Value} {vs : List Value} {es : Fields} {q : Pointer}

theorem HasTableAt.eq_map_or_list (h : v.HasTableAt q) :
    (∃ es, v = .map es) ∨ ∃ vs, v = .list vs := by
  obtain ⟨sub, hat, -⟩ := h
  exact eq_map_or_list_of_at? hat

theorem hasTableAt_list : (Value.list vs).HasTableAt q ↔
    ∃ (i : Nat) (sub : Fields), vs[i]? = some (.map sub) ∧ sub.isTable = true ∧
      q = [.text (toString i)] := by
  constructor
  · rintro ⟨sub, hat, htable, rfl | ⟨-, k, rfl⟩⟩
    · simp at hat
    · rw [at?, Option.bind_eq_some_iff] at hat
      obtain ⟨v, hv, hat⟩ := hat
      obtain ⟨place, rfl, hplace⟩ := exists_place_of_element? hv
      obtain rfl : v = .map sub := by simpa using hat
      exact ⟨place, sub, hplace, htable, rfl⟩
  · rintro ⟨i, sub, hi, htable, rfl⟩
    refine ⟨sub, ?_, htable, Or.inr ⟨rfl, _, rfl⟩⟩
    rw [at?, element?_toString, hi, Option.bind_some, at?_nil]

theorem hasTableAt_table (htable : es.isTable = true) :
    (Value.map es).HasTableAt q ↔ q = [] := by
  constructor
  · rintro ⟨-, -, -, rfl | ⟨hno, -⟩⟩
    · rfl
    · exact absurd htable (by simpa [isTable] using hno)
  · rintro rfl
    exact ⟨es, by simp, htable, Or.inl rfl⟩

theorem hasTableAt_map (hno : es.isTable = false) : (Value.map es).HasTableAt q ↔
    ∃ (k : Scalar) (sub : Fields), Entries.get? k es = some (.map sub) ∧ sub.isTable = true ∧
      q = [k] := by
  constructor
  · rintro ⟨sub, hat, htable, rfl | ⟨-, k, rfl⟩⟩
    · obtain rfl : es = sub := by simpa using hat
      exact absurd htable (by simp [hno])
    · rw [at?, Option.bind_eq_some_iff] at hat
      obtain ⟨v, hget, hat⟩ := hat
      obtain rfl : v = .map sub := by simpa using hat
      exact ⟨k, sub, hget, htable, rfl⟩
  · rintro ⟨k, sub, hget, htable, rfl⟩
    exact ⟨sub, by simp [at?, hget], htable, Or.inr ⟨hno, k, rfl⟩⟩

end Value

/-! ### Tables right under a keyword -/

namespace Fields

variable {node sub : Fields} {keyword : String} {p q : Pointer}

/-- Whether a pointer leads from a node to a table right under a keyword that is not visited. -/
def IsUnvisited (node : Fields) (p : Pointer) : Prop :=
  ∃ keyword ∈ unvisitedKeywords, ∃ q : Pointer, p = .text keyword :: q ∧
    (node.value keyword).HasTableAt q

theorem mem_tablesIn_iff {place : Nat} {vs : List Value} :
    p ∈ tablesIn keyword place vs ↔ ∃ (i : Nat) (sub : Fields), vs[i]? = some (.map sub) ∧
      sub.isTable = true ∧ p = [.text keyword, .text (toString (place + i))] := by
  induction vs generalizing place with
  | nil => simp [tablesIn]
  | cons v vs ih =>
    rw [tablesIn, List.mem_append, ih]
    constructor
    · rintro (h | ⟨i, sub, hi, htable, rfl⟩)
      · split at h
        · next hv =>
          cases v with
          | map sub => exact ⟨0, sub, rfl, hv, List.mem_singleton.mp h⟩
          | _ => simp [Value.isTable] at hv
        · simp at h
      · exact ⟨i + 1, sub, hi, htable, by rw [Nat.add_right_comm, Nat.add_assoc]⟩
    · rintro ⟨i, sub, hi, htable, rfl⟩
      cases i with
      | zero =>
        obtain rfl : v = .map sub := by simpa using hi
        have hv : (Value.map sub).isTable = true := htable
        rw [if_pos hv]
        exact Or.inl List.mem_cons_self
      | succ i => exact Or.inr ⟨i, sub, hi, htable, by rw [Nat.add_right_comm, Nat.add_assoc]⟩

/-- The tables that stand in a mapping. -/
theorem mem_filterMap_mappings_iff {es : Fields} (hkeyed : es.isKeyed = true) :
    (p ∈ (mappings es).filterMap fun e =>
      if e.2.isTable then some [.text keyword, e.1] else none) ↔
        ∃ (k : Scalar) (sub : Fields), Entries.get? k es = some (.map sub) ∧ sub.isTable = true ∧
          p = [.text keyword, k] := by
  have hget : ∀ {k : Scalar} {sub : Fields}, (k, sub) ∈ mappings es ↔
      Entries.get? k es = some (.map sub) := fun {k sub} => by
    rw [mem_mappings_iff]
    exact ⟨Entries.get?_eq_some_of_mem ((isKeyed_iff es).mp hkeyed).1,
      Entries.mem_of_get?_eq_some⟩
  simp only [List.mem_filterMap, Option.ite_none_right_eq_some, Option.some.injEq]
  constructor
  · rintro ⟨⟨k, sub⟩, hmem, htable, rfl⟩
    exact ⟨k, sub, hget.mp hmem, htable, rfl⟩
  · rintro ⟨k, sub, hk, htable, rfl⟩
    exact ⟨(k, sub), hget.mpr hk, htable, rfl⟩

/-- **The tables right under a keyword**: its value, or what stands in it. -/
theorem mem_tablesUnder_iff (hkeyed : node.isKeyed = true) :
    p ∈ node.tablesUnder keyword ↔
      ∃ q : Pointer, p = .text keyword :: q ∧ (node.value keyword).HasTableAt q := by
  rw [tablesUnder, value]
  cases hvalue : node.value? keyword with
  | none =>
    refine iff_of_false List.not_mem_nil ?_
    rintro ⟨q, -, h⟩
    simpa [Value.null] using h.eq_map_or_list
  | some v =>
    rw [Option.getD_some]
    cases v with
    | scalar | set | pair =>
      refine iff_of_false List.not_mem_nil ?_
      rintro ⟨q, -, h⟩
      simpa using h.eq_map_or_list
    | list vs =>
      rw [mem_tablesIn_iff]
      simp only [Value.hasTableAt_list, Nat.zero_add]
      constructor
      · rintro ⟨i, sub, hi, htable, rfl⟩
        exact ⟨_, rfl, i, sub, hi, htable, rfl⟩
      · rintro ⟨q, rfl, i, sub, hi, htable, rfl⟩
        exact ⟨i, sub, hi, htable, rfl⟩
    | map es =>
      by_cases htable : Fields.isTable es = true
      · simp only [if_pos htable, List.mem_singleton, Value.hasTableAt_table htable,
          exists_eq_right]
      · have hes : Fields.isKeyed es = true :=
          isKeyed_of_mapping? hkeyed (Option.bind_eq_some_iff.mpr ⟨_, hvalue, rfl⟩)
        simp only [if_neg htable, Value.hasTableAt_map (Bool.eq_false_iff.mpr htable)]
        rw [mem_filterMap_mappings_iff hes]
        constructor
        · rintro ⟨k, sub, hget, hsub, rfl⟩
          exact ⟨_, rfl, k, sub, hget, hsub, rfl⟩
        · rintro ⟨q, rfl, k, sub, hget, hsub, rfl⟩
          exact ⟨k, sub, hget, hsub, rfl⟩

/-- **The tables under the unvisited keywords** of a node are those right under one. -/
theorem mem_unvisitedTables_iff (hkeyed : node.isKeyed = true) :
    p ∈ node.unvisitedTables ↔ node.IsUnvisited p := by
  rw [unvisitedTables, List.mem_flatMap, IsUnvisited]
  simp only [mem_tablesUnder_iff hkeyed]

theorem nodup_tablesIn (keyword : String) (place : Nat) (vs : List Value) :
    (tablesIn keyword place vs).Nodup := by
  induction vs generalizing place with
  | nil => exact List.nodup_nil
  | cons v vs ih =>
    rw [tablesIn, List.nodup_append]
    refine ⟨by split <;> simp, ih (place + 1), ?_⟩
    rintro p hp p' hp' rfl
    obtain ⟨i, -, -, -, heq⟩ := mem_tablesIn_iff.mp hp'
    split at hp
    · -- the places behind the first one are other numbers
      rw [List.mem_singleton.mp hp] at heq
      simp only [List.cons.injEq, Scalar.text.injEq, and_true, true_and] at heq
      have hplaces := congrArg (fun s : String => Nat.ofDigitChars 10 s.toList 0) heq
      simp only [Value.ofDigitChars_toString] at hplaces
      omega
    · simp at hp

theorem nodup_tablesUnder (hkeyed : node.isKeyed = true) (keyword : String) :
    (node.tablesUnder keyword).Nodup := by
  rw [tablesUnder]
  split
  · exact nodup_tablesIn keyword 0 _
  · next es hes =>
    have hmapping : node.mapping? keyword = some es :=
      Option.bind_eq_some_iff.mpr ⟨_, hes, rfl⟩
    have hdistinct :=
      distinct_mappings ((isKeyed_iff es).mp (isKeyed_of_mapping? hkeyed hmapping)).1
    split
    · exact List.nodup_singleton _
    · -- the key of the mapping is the last one of the pointer
      rw [List.Nodup, List.pairwise_filterMap]
      refine (List.pairwise_map.mp hdistinct).imp ?_
      rintro e e' hne p hp p' hp' rfl
      simp only [Option.ite_none_right_eq_some, Option.some.injEq] at hp hp'
      exact hne (List.cons.inj (List.cons.inj (hp.2.trans hp'.2.symm)).2).1
  · exact List.nodup_nil

/-- Every such table has one pointer. -/
theorem nodup_unvisitedTables (hkeyed : node.isKeyed = true) : node.unvisitedTables.Nodup := by
  rw [unvisitedTables, List.nodup_flatMap]
  refine ⟨fun keyword _ => nodup_tablesUnder hkeyed keyword, ?_⟩
  have hkeywords : unvisitedKeywords.Nodup := by decide
  refine hkeywords.imp fun {keyword keyword'} hne p hp hp' => ?_
  obtain ⟨q, rfl, -⟩ := (mem_tablesUnder_iff hkeyed).mp hp
  obtain ⟨q', heq, -⟩ := (mem_tablesUnder_iff hkeyed).mp hp'
  exact hne (Scalar.text.inj (List.cons.inj heq).1)

/-! ### Over a whole schema -/

variable {root : Fields} {way way' : List Step}

/-- The pointers to the tables right under the unvisited keywords of the nodes of a schema that a
walk visits, in the order of the walk. -/
def unvisitedPointers (root : Fields) : List Pointer :=
  root.nodes.flatMap fun n => n.2.unvisitedTables.map (n.1 ++ ·)

/-- The pointers from a node are its own, and then those from its children. -/
theorem unvisitedPointers_eq (root : Fields) :
    root.unvisitedPointers = root.unvisitedTables ++
      root.children.flatMap fun c => c.2.unvisitedPointers.map (c.1.path ++ ·) := by
  have hchild : ∀ c : Step × Fields,
      ((c.2.nodes.map fun n => (c.1.path ++ n.1, n.2)).flatMap
        fun n => n.2.unvisitedTables.map (n.1 ++ ·)) =
          c.2.unvisitedPointers.map (c.1.path ++ ·) := by
    intro c
    rw [unvisitedPointers, List.map_flatMap, List.flatMap_map]
    simp only [List.map_map, Function.comp_def, List.append_assoc]
  rw [unvisitedPointers, nodes_eq_flatMap, List.flatMap_cons, List.flatMap_assoc]
  simp only [hchild, List.nil_append, List.map_id']

/-- **The pointers over a schema** lead from the nodes at the ends of ways to what is unvisited
there. -/
theorem mem_unvisitedPointers_iff (hkeyed : root.isKeyed = true) :
    p ∈ root.unvisitedPointers ↔ ∃ (way : List Step) (n : Fields) (q : Pointer),
      root.down? way = some n ∧ n.IsUnvisited q ∧ p = Pointer.ofWay way ++ q := by
  induction root using Fields.walkInduction generalizing p with
  | h root ih =>
    rw [unvisitedPointers_eq, List.mem_append, mem_unvisitedTables_iff hkeyed, List.mem_flatMap]
    constructor
    · rintro (h | ⟨⟨step, sub⟩, hc, hp⟩)
      · exact ⟨[], root, p, rfl, h, rfl⟩
      · obtain ⟨p, hmem, rfl⟩ := List.mem_map.mp hp
        obtain ⟨way, n, q, hdown, hn, rfl⟩ := (ih _ hc (isKeyed_of_mem_children hkeyed hc)).mp hmem
        refine ⟨step :: way, n, q, ?_, hn, ?_⟩
        · rw [down?_cons, (get?_children_iff hkeyed).mpr hc]
          exact hdown
        · rw [Pointer.ofWay_cons, List.append_assoc]
    · rintro ⟨way, n, q, hdown, hn, rfl⟩
      cases way with
      | nil =>
        obtain rfl := Option.some.inj hdown
        exact Or.inl hn
      | cons step way =>
        obtain ⟨sub, hsub, hdown⟩ := Option.bind_eq_some_iff.mp hdown
        have hc := Entries.mem_of_get?_eq_some hsub
        refine Or.inr ⟨(step, sub), hc, List.mem_map.mpr ⟨Pointer.ofWay way ++ q, ?_, ?_⟩⟩
        · exact (ih _ hc (isKeyed_of_mem_children hkeyed hc)).mpr ⟨way, n, q, hdown, hn, rfl⟩
        · rw [Pointer.ofWay_cons, List.append_assoc]

/-- No step goes through a keyword that is not visited. -/
theorem IsUnvisited.ne_path_append (h : node.IsUnvisited q) (step : Step) (p : Pointer) :
    q ≠ step.path ++ p := by
  obtain ⟨keyword, hkeyword, q, rfl, -⟩ := h
  intro heq
  cases step with
  | property | items =>
    obtain rfl := Scalar.text.inj (List.cons.inj heq).1
    revert hkeyword
    decide

/-- **A pointer to what is unvisited is that of no way.** -/
theorem IsUnvisited.ofWay_append_ne (h : node.IsUnvisited q) (way way' : List Step) :
    Pointer.ofWay way ++ q ≠ Pointer.ofWay way' := by
  induction way generalizing way' with
  | nil =>
    cases way' with
    | nil =>
      obtain ⟨keyword, -, q, rfl, -⟩ := h
      exact List.cons_ne_nil _ _
    | cons step way' =>
      rw [Pointer.ofWay_cons]
      exact h.ne_path_append step _
  | cons step way ih =>
    cases way' with
    | nil =>
      rw [Pointer.ofWay_cons]
      cases step <;> exact List.cons_ne_nil _ _
    | cons step' way' =>
      rw [Pointer.ofWay_cons, Pointer.ofWay_cons, List.append_assoc]
      intro heq
      obtain rfl := Tree.step_eq_of_append_eq heq
      exact ih way' (List.append_cancel_left heq)

/-- **Every table right under an unvisited keyword has one pointer** over the whole schema. -/
theorem nodup_unvisitedPointers (hkeyed : root.isKeyed = true) :
    root.unvisitedPointers.Nodup := by
  induction root using Fields.walkInduction with
  | h root ih =>
    rw [unvisitedPointers_eq, List.nodup_append, List.nodup_flatMap]
    refine ⟨nodup_unvisitedTables hkeyed, ⟨fun c hc => ?_, ?_⟩, ?_⟩
    · exact (ih c hc (isKeyed_of_mem_children hkeyed hc)).map (List.append_right_injective _)
    · have hsteps : root.children.Pairwise fun c c' => c.1 ≠ c'.1 :=
        List.pairwise_map.mp (nodup_steps hkeyed)
      refine hsteps.imp fun {c c'} hne p hp hp' => ?_
      obtain ⟨q, -, rfl⟩ := List.mem_map.mp hp
      obtain ⟨q', -, heq⟩ := List.mem_map.mp hp'
      exact hne (Tree.step_eq_of_append_eq heq).symm
    · rintro p hp p' hp' rfl
      obtain ⟨c, -, hc⟩ := List.mem_flatMap.mp hp'
      obtain ⟨q, -, rfl⟩ := List.mem_map.mp hc
      exact ((mem_unvisitedTables_iff hkeyed).mp hp).ne_path_append c.1 q rfl

/-- What is unvisited is found where its pointer leads, and its keys are texts. -/
theorem IsUnvisited.exists_at? (hkeyed : node.isKeyed = true) (h : node.IsUnvisited q) :
    (∃ sub : Fields, (Value.map node).at? q = some (.map sub) ∧ sub.isTable = true) ∧
      ∀ k ∈ q, k.isText = true := by
  obtain ⟨keyword, -, q, rfl, hat⟩ := h
  obtain ⟨v, hv⟩ : ∃ v, node.value? keyword = some v := by
    cases hv : node.value? keyword with
    | some v => exact ⟨v, rfl⟩
    | none =>
      rw [value, hv] at hat
      simpa [Value.null] using hat.eq_map_or_list
  rw [value, hv, Option.getD_some] at hat
  refine ⟨?_, List.forall_mem_cons.mpr ⟨rfl, ?_⟩⟩
  · obtain ⟨sub, hat, htable, -⟩ := hat
    have hget : Entries.get? (.text keyword) node = some v := hv
    exact ⟨sub, by rw [Value.at?, hget, Option.bind_some, hat], htable⟩
  · -- a key leads into a list, where it is a place, or into a mapping
    rcases hat.eq_map_or_list with ⟨es, rfl⟩ | ⟨vs, rfl⟩
    · by_cases htable : Fields.isTable es = true
      · obtain rfl := (Value.hasTableAt_table htable).mp hat
        simp
      · obtain ⟨k, sub, hget, -, rfl⟩ :=
          (Value.hasTableAt_map (Bool.eq_false_iff.mpr htable)).mp hat
        have hes := isKeyed_of_mapping? hkeyed (Option.bind_eq_some_iff.mpr ⟨_, hv, rfl⟩)
        exact List.forall_mem_singleton.mpr
          (((isKeyed_iff es).mp hes).2 _ (Entries.mem_of_get?_eq_some hget)).1
    · obtain ⟨i, sub, -, -, rfl⟩ := Value.hasTableAt_list.mp hat
      exact List.forall_mem_singleton.mpr rfl

/-- The keys of the pointers are texts. -/
theorem isText_of_mem_unvisitedPointers (hkeyed : root.isKeyed = true)
    (h : p ∈ root.unvisitedPointers) : ∀ k ∈ p, k.isText = true := by
  obtain ⟨way, n, q, hdown, hn, rfl⟩ := (mem_unvisitedPointers_iff hkeyed).mp h
  refine List.forall_mem_append.mpr ⟨?_, (hn.exists_at? (isKeyed_of_down? hkeyed hdown)).2⟩
  exact isText_ofWay hkeyed hdown

/-- **What such a pointer is written as leads to a table.** -/
theorem exists_atText?_of_mem (hkeyed : root.isKeyed = true)
    (h : p ∈ root.unvisitedPointers) :
    ∃ sub : Fields, (Value.map root).atText? p.written = some (.map sub) ∧
      sub.isTable = true := by
  rw [Value.atText?_written _ (isText_of_mem_unvisitedPointers hkeyed h)]
  obtain ⟨way, n, q, hdown, hn, rfl⟩ := (mem_unvisitedPointers_iff hkeyed).mp h
  obtain ⟨⟨sub, hat, htable⟩, -⟩ := hn.exists_at? (isKeyed_of_down? hkeyed hdown)
  refine ⟨sub, ?_, htable⟩
  rw [Value.at?_append, at?_ofWay hkeyed hdown, Option.bind_some,
    hat]

/-- **No such table is one that a walk visits.** -/
theorem written_ne_of_mem_tables (hkeyed : root.isKeyed = true)
    (h : p ∈ root.unvisitedPointers) {t : Pointer × Tree}
    (ht : t ∈ (Tree.ofFields root).tables) : p.written ≠ t.1.written := by
  intro heq
  have htext := isText_of_mem_unvisitedPointers hkeyed h
  obtain ⟨way, n, q, -, hn, rfl⟩ := (mem_unvisitedPointers_iff hkeyed).mp h
  obtain ⟨way', c, hdown, -, rfl⟩ := (Tree.mem_tables_iff_down? hkeyed).mp ht
  exact hn.ofWay_append_ne way way' (Pointer.eq_of_written_eq htext (isText_ofWay hkeyed hdown) heq)

end Fields

end NestedTables
