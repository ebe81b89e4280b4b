import NestedTables.Proofs.Compile.Compilation
import NestedTables.Proofs.Schema.Pointer

/-!
# Collisions

Two relations collide exactly when two sites of a table have the same name
(`compile_collision_iff`). It does not matter at which of the places where relations come
together they meet. Sites of different tables never collide, and neither do relations that
belong to no table.

What is reported is such a name, and a pointer that can be read back and leads to a node of the
region of that table.
-/

namespace NestedTables

variable {η ε : Type}

/-- Two sites of a table, at different nodes of its region, have a name. -/
def Tree.Repeats (table : Tree) (name : Scalar) : Prop :=
  ∃ s₁ ∈ table.sites, ∃ s₂ ∈ table.sites,
    s₁.way ≠ s₂.way ∧ name = .text s₁.name ∧ name = .text s₂.name

namespace Tree

variable {node : Fields} {name : Scalar}

/-- A name that is there twice among the names of the sites is the name of two sites. -/
theorem repeats_of_duplicate (hkeyed : node.isKeyed = true)
    (h : List.Duplicate name (ofFields node).siteNames) : (ofFields node).Repeats name := by
  rw [List.duplicate_iff_sublist, siteNames, List.sublist_map_iff] at h
  obtain ⟨ss, hsub, hnames⟩ := h
  -- the two sites stand one behind the other, and differ in their ways as their names are equal
  have hlength : ss.length = 2 := by simpa using (congrArg List.length hnames).symm
  obtain ⟨s₁, s₂, rfl⟩ := List.length_eq_two.mp hlength
  simp only [List.map_cons, List.map_nil, List.cons.injEq, and_true] at hnames
  refine ⟨s₁, hsub.subset (by simp), s₂, hsub.subset (by simp), ?_, hnames.1, hnames.2⟩
  intro hway
  have hnodup := (nodup_sites hkeyed).sublist (hsub.map fun s => (s.way, s.name))
  have hname : s₁.name = s₂.name := Scalar.text.inj (hnames.1.symm.trans hnames.2)
  simp [hway, hname] at hnodup

/-- Where two sites have a name the names are not all different. -/
theorem not_nodup_of_repeats {table : Tree} (h : table.Repeats name) :
    ¬ table.siteNames.Nodup := by
  obtain ⟨s₁, h₁, s₂, h₂, hway, rfl, hname⟩ := h
  intro hnodup
  exact hway (congrArg Site.way (List.inj_on_of_nodup_map hnodup h₁ h₂ hname))

end Tree

variable {settings : Settings} {schema : Fields}

/-- **Two relations collide exactly when two sites of a table have the same name.** Then the
compilation names such a name, and a node of the region of that table. -/
theorem compile_collision_iff (hset : settings.IsValid) (hkeyed : schema.isKeyed = true)
    (hvalid : (Override.checkAll settings schema).isValid = true) (binder : Binder η ε)
    (htakes : ∀ before d, ∃ handle, binder.create before d = .ok handle) :
    let outcome := compile binder settings (.map schema)
    ((∃ name p, outcome.result = .error (.schema (.collision name p))) ↔
      ∃ t ∈ (Tree.ofFields schema).tables, ∃ name, t.2.Repeats name) ∧
    ∀ name p, outcome.result = .error (.schema (.collision name p)) →
      ∃ t ∈ (Tree.ofFields schema).tables, t.2.Repeats name ∧
        ∃ n ∈ t.2.region, ∃ text, p = .text text ∧
          Pointer.keys? text = some ((t.1 ++ Pointer.ofWay n.1).map Scalar.plain) ∧
            (Value.map schema).atText? text = some (.map n.2.fields) := by
  have hends := compile_ends binder hset hkeyed hvalid
  have hreport : ∀ name p, (compile binder settings (.map schema)).result =
      .error (.schema (.collision name p)) →
      ∃ t ∈ (Tree.ofFields schema).tables, t.2.Repeats name ∧
        ∃ n ∈ t.2.region, ∃ text, p = .text text ∧
          Pointer.keys? text = some ((t.1 ++ Pointer.ofWay n.1).map Scalar.plain) ∧
            (Value.map schema).atText? text = some (.map n.2.fields) := by
    intro name p hresult
    generalize compile binder settings (.map schema) = outcome at hends hresult
    cases hends with
    | finished | refused => simp at hresult
    | @collided done rest s name' at_ t hacts h ht hclash =>
      simp only [Except.error.injEq, Failure.schema.injEq, SchemaError.collision.injEq] at hresult
      obtain ⟨rfl, rfl⟩ := hresult
      obtain ⟨hdup, n, hn, rfl⟩ := hclash
      obtain ⟨htree, hsub⟩ := Tree.ofFields_of_mem_tables hkeyed ht
      rw [htree] at hdup
      obtain ⟨way, hdown, hway⟩ := Tree.exists_down?_of_region hkeyed ht hn
      refine ⟨t, ht, htree ▸ Tree.repeats_of_duplicate hsub hdup, n, hn, _, rfl,
        Pointer.keys?_written _, ?_⟩
      rw [← hway, Value.atText?_written _ (Fields.isText_ofWay hkeyed hdown)]
      exact Fields.at?_ofWay hkeyed hdown
  refine ⟨⟨?_, ?_⟩, hreport⟩
  · rintro ⟨name, p, hresult⟩
    obtain ⟨t, ht, hrepeats, -⟩ := hreport name p hresult
    exact ⟨t, ht, name, hrepeats⟩
  · rintro ⟨t, ht, name, hrepeats⟩
    -- the first of the three ways to end needs different names, the second a binder that refuses
    generalize compile binder settings (.map schema) = outcome at hends
    cases hends with
    | finished _ hnames => exact absurd (hnames t ht) (Tree.not_nodup_of_repeats hrepeats)
    | refused _ _ hrefuse =>
      obtain ⟨handle, hhandle⟩ := htakes _ _
      exact absurd (hhandle.symm.trans hrefuse) (by simp)
    | collided => exact ⟨_, _, rfl⟩

/-- An order with two contacts, each inside an embedded object of its own. -/
def twinSchema : Fields :=
  let party : Value := .object
    [("properties", .object [("contact", .object [("$id", .text "contact")])])]
  [(.text "$id", .text "order"),
    (.text "properties", .object [("billing", party), ("shipping", party)])]

/-- The two contacts collide when the second one reaches the order. -/
theorem compile_collision_iff_twin :
    ({} : Settings).IsValid ∧ twinSchema.isKeyed = true ∧
      (Override.checkAll {} twinSchema).isValid = true ∧
      (∀ before d, ∃ handle, (Binder.counting : Binder Nat Empty).create before d = .ok handle) ∧
      (compile (Binder.counting : Binder Nat Empty) {} (.map twinSchema)).result =
        .error (.schema (.collision (.text "contact") (.text "#/properties/shipping"))) ∧
      ∃ t ∈ (Tree.ofFields twinSchema).tables, ∃ name, t.2.Repeats name := by
  have hkeyed : twinSchema.isKeyed = true := by decide
  have hvalid : (Override.checkAll {} twinSchema).isValid = true := by rfl
  have htakes : ∀ before d, ∃ handle,
      (Binder.counting : Binder Nat Empty).create before d = .ok handle := fun _ _ => ⟨_, rfl⟩
  have hresult : (compile (Binder.counting : Binder Nat Empty) {} (.map twinSchema)).result =
      .error (.schema (.collision (.text "contact") (.text "#/properties/shipping"))) := by
    rfl
  exact ⟨Settings.isValid_default, hkeyed, hvalid, htakes, hresult,
    (compile_collision_iff Settings.isValid_default hkeyed hvalid Binder.counting htakes).1.mp
      ⟨_, _, hresult⟩⟩

end NestedTables
