import NestedTables.Proofs.Compile.Replay

/-!
# The descriptors of registered tables

A registered table is described by its schema as it is by now, with the tables that stand inside
it put in. Such a table has been registered before, and what is put in is the schema of its own
descriptor, so that both stay in step (`Registry.getElem?_descriptors`). The names and the
relations of a table are described as they are.
-/

namespace NestedTables

variable {η ε : Type}

theorem Fragment.resolveAll_append_singleton (schemas : List (Entries Scalar Fragment))
    (schema : Entries Scalar Fragment) :
    resolveAll (schemas ++ [schema]) =
      resolveAll schemas ++ [resolveEntries (resolveAll schemas) schema] := by
  simp [resolveAll]

@[simp] theorem Fragment.length_resolveAll (schemas : List (Entries Scalar Fragment)) :
    (resolveAll schemas).length = schemas.length := by
  induction schemas using List.reverseRecOn with
  | nil => rfl
  | append_singleton schemas schema ih => simp [resolveAll_append_singleton, ih]

/-- An entry is resolved where it stands. -/
theorem Fragment.get?_resolveEntries (tables : List Fields) (k : Scalar)
    (es : Entries Scalar Fragment) :
    (resolveEntries tables es : Fields).get? k = (es.get? k).map (resolve tables) := by
  induction es with
  | nil => rfl
  | cons e es ih =>
    obtain ⟨j, f⟩ := e
    rw [resolveEntries, Entries.get?_cons, Entries.get?_cons, ih]
    split <;> rfl

/-- The properties of a descriptor that has some. -/
theorem Descriptor.properties_eq {d : Descriptor η} {columns : Fields}
    (h : d.schema.get? propertiesKey = some (.map columns)) : d.properties = .map columns := by
  have hhas : d.schema.has propertiesKey = true := by rw [Entries.has, h, Option.isSome_some]
  have hsettled : d.settled = d := by
    rw [settled, Entries.putNew]
    exact congrArg (fun schema => { d with schema := schema }) (if_pos hhas)
  have hvalue : d.schema.value? "properties" = some (.map columns) := h
  rw [properties, hsettled, Fields.value, hvalue, Option.getD_some]

/-- The columns of a descriptor that has properties. -/
theorem Descriptor.columns_eq {d : Descriptor η} {columns : Fields}
    (h : d.schema.get? propertiesKey = some (.map columns)) : d.columns = columns := by
  rw [Descriptor.columns, properties_eq h]
  rfl

namespace Draft

/-- The descriptors of some tables, each of which may have earlier ones inside it. -/
def describeAll (drafts : List (Draft η)) : List (Descriptor η) :=
  List.zipWith describe (Fragment.resolveAll (drafts.map schema)) drafts

theorem describeAll_append_singleton (drafts : List (Draft η)) (d : Draft η) :
    describeAll (drafts ++ [d]) =
      describeAll drafts ++
        [d.describe (Fragment.resolveEntries (Fragment.resolveAll (drafts.map schema))
          d.schema)] := by
  rw [describeAll, List.map_append, List.map_cons, List.map_nil,
    Fragment.resolveAll_append_singleton, List.zipWith_append (by simp)]
  rfl

/-- The schemas of descriptors are the resolved schemas of the tables. -/
theorem map_schema_describeAll (drafts : List (Draft η)) :
    (describeAll drafts).map Descriptor.schema = Fragment.resolveAll (drafts.map schema) := by
  induction drafts using List.reverseRecOn with
  | nil => rfl
  | append_singleton drafts d ih =>
    have hmap : (drafts ++ [d]).map schema = drafts.map schema ++ [d.schema] := by simp
    rw [describeAll_append_singleton, List.map_append, ih, hmap,
      Fragment.resolveAll_append_singleton]
    rfl

@[simp] theorem length_describeAll (drafts : List (Draft η)) :
    (describeAll drafts).length = drafts.length := by
  simp [describeAll]

theorem getElem?_describeAll {drafts : List (Draft η)} {i : Nat} {descriptor : Descriptor η}
    (h : (describeAll drafts)[i]? = some descriptor) :
    ∃ d, drafts[i]? = some d ∧ descriptor = d.describe
      (Fragment.resolveEntries (((describeAll drafts).take i).map Descriptor.schema) d.schema) := by
  induction drafts using List.reverseRecOn with
  | nil => simp [describeAll] at h
  | append_singleton drafts last ih =>
    have hlength := length_describeAll drafts
    rw [describeAll_append_singleton] at h ⊢
    -- an older table, the last one, or none
    rcases Nat.lt_trichotomy i drafts.length with hi | rfl | hi
    · rw [List.getElem?_append_left (by omega)] at h
      obtain ⟨d, hd, hdescriptor⟩ := ih h
      refine ⟨d, by rw [List.getElem?_append_left hi, hd], ?_⟩
      rw [List.take_append_of_le_length (by omega)]
      exact hdescriptor
    · rw [List.getElem?_append_right (by omega), hlength, Nat.sub_self] at h
      obtain rfl := Option.some.inj h
      refine ⟨last, by simp, ?_⟩
      rw [List.take_left' hlength, map_schema_describeAll]
    · rw [List.getElem?_eq_none (by simp; omega)] at h
      simp at h

end Draft

namespace Registry

theorem descriptors_eq (r : Registry η) : r.descriptors = Draft.describeAll r.drafts := rfl

/-- **A descriptor of a registered table** describes it, with the present schemas of the tables
that were registered before it. -/
theorem getElem?_descriptors {r : Registry η} {i : Nat} {descriptor : Descriptor η}
    (h : r.descriptors[i]? = some descriptor) :
    ∃ d, r.drafts[i]? = some d ∧ descriptor = d.describe
      (Fragment.resolveEntries ((r.descriptors.take i).map Descriptor.schema) d.schema) :=
  Draft.getElem?_describeAll h

/-- The descriptors describe the registered tables, one for one. -/
theorem forall₂_descriptors (r : Registry η) :
    List.Forall₂ (fun d descriptor => ∃ schema, descriptor = d.describe schema)
      r.drafts r.descriptors := by
  rw [List.forall₂_iff_get]
  refine ⟨(Draft.length_describeAll _).symm, fun i h h' => ?_⟩
  obtain ⟨d, hd, hdescriptor⟩ := getElem?_descriptors (List.getElem?_eq_getElem h')
  rw [List.getElem?_eq_getElem h, Option.some.injEq] at hd
  exact ⟨_, hd ▸ hdescriptor⟩

end Registry

/-- What stands beside an element of the second of two lists that go along with each other. -/
theorem exists_getElem?_of_forall₂ {α β : Type} {R : α → β → Prop} {as : List α} {bs : List β}
    (h : List.Forall₂ R as bs) {i : Nat} {b : β} (hb : bs[i]? = some b) :
    ∃ a, as[i]? = some a ∧ R a b := by
  induction h generalizing i with
  | nil => simp at hb
  | @cons a _ as _ hab _ ih =>
    cases i with
    | zero => exact ⟨a, rfl, Option.some.inj hb ▸ hab⟩
    | succ i => exact ih hb

theorem exists_mem_of_forall₂_left {α β : Type} {R : α → β → Prop} {as : List α} {bs : List β}
    (h : List.Forall₂ R as bs) {a : α} (ha : a ∈ as) : ∃ b ∈ bs, R a b := by
  obtain ⟨i, hi⟩ := List.getElem?_of_mem ha
  obtain ⟨b, hb, hab⟩ := exists_getElem?_of_forall₂ h.flip hi
  exact ⟨b, List.mem_of_getElem? hb, hab⟩

/-- Two lists of one length go along with each other if their elements do, place by place. -/
theorem forall₂_of_getElem? {α β : Type} {R : α → β → Prop} {as : List α} {bs : List β}
    (hlength : as.length = bs.length)
    (h : ∀ (i : Nat) a b, as[i]? = some a → bs[i]? = some b → R a b) : List.Forall₂ R as bs := by
  rw [List.forall₂_iff_get]
  exact ⟨hlength, fun i hi hi' =>
    h i _ _ (List.getElem?_eq_getElem hi) (List.getElem?_eq_getElem hi')⟩

/-- Two lists that go along with a third one go along with each other. -/
theorem forall₂_comp {α β γ : Type} {R : α → β → Prop} {S : β → γ → Prop} {T : α → γ → Prop}
    (h : ∀ a b c, R a b → S b c → T a c) {as : List α} {bs : List β} {cs : List γ}
    (hR : List.Forall₂ R as bs) (hS : List.Forall₂ S bs cs) : List.Forall₂ T as cs := by
  induction hR generalizing cs with
  | nil =>
    cases hS
    exact .nil
  | cons hab _ ih =>
    cases hS with
    | cons hbc hrest => exact .cons (h _ _ _ hab hbc) (ih hrest)

/-- **What stands behind a descriptor** at a stage: a table as it was registered, and as it has
been built by now. -/
theorem exists_built {setting : Walk.Setting η ε} {log : List Event} {acts : List Act}
    {s : Stage η} (h : (Stage.start log).Performs setting acts s) {i : Nat} {d : Descriptor η}
    (hd : s.registry.descriptors[i]? = some d) :
    ∃ r built, (Act.registered acts)[i]? = some r ∧
      Stage.Built setting.settings acts s.handles r.2 built ∧
        d = built.describe (Fragment.resolveEntries
          ((s.registry.descriptors.take i).map Descriptor.schema) built.schema) := by
  have hreplays := h.replays (Stage.replays_start setting.settings log)
  rw [List.nil_append] at hreplays
  obtain ⟨built, hbuilt, hdescriptor⟩ := Registry.getElem?_descriptors hd
  obtain ⟨r, hr, hmade⟩ := exists_getElem?_of_forall₂ hreplays.drafts hbuilt
  exact ⟨r, built, hr, hmade, hdescriptor⟩

end NestedTables
