import NestedTables.Proofs.Compile.Alike
import NestedTables.Proofs.Compile.ExactTables
import NestedTables.Proofs.Schema.Exact

/-!
# Compiled schemas are exact

A walk through a schema that is a tree of scalars that pass a test leads from a registry of such
trees to one (`Walk.keeps_visit`). So the descriptors of a compilation are such trees if the schema
is one, and if the schema of a foreign key and the kinds of relations are (`compile_trees`). With
the test for scalars that are written as they are, this says that the descriptors are exact.

`Walk.Keeps` is the triple for this, and its rules follow the structure of a program.
-/

namespace NestedTables

variable {η ε α β : Type} {test : Scalar → Bool}

/-- Whether what a node became is a tree, and the kinds of the relations that it hands up are. -/
structure Visit.IsTree (test : Scalar → Bool) (v : Visit η) : Prop where
  schema : v.schema.IsTree test
  kinds : Relation.KindsTree test v.relations

/-! ### Walks that keep a registry of trees -/

namespace Walk

/-- Whether a walk that sets out from a registry of trees leaves one, and gives results of which `P`
holds. -/
def Keeps (test : Scalar → Bool) (P : α → Prop) (m : Walk η ε α) : Prop :=
  ∀ r : Registry η, r.IsTree test →
    (m.run.run r).2.IsTree test ∧ ∀ a, (m.run.run r).1 = .ok a → P a

variable {P : α → Prop} {Q : β → Prop} {m : Walk η ε α} {f : α → Walk η ε β}

theorem Keeps.pure {a : α} (h : P a) : Keeps test P (Pure.pure a : Walk η ε α) :=
  fun _ hr => ⟨hr, fun _ hb => Except.ok.inj hb ▸ h⟩

theorem Keeps.throw (e : Failure ε) : Keeps test P (throw e : Walk η ε α) := by
  refine fun _ hr => ⟨hr, fun a ha => ?_⟩
  cases ha

/-- **A walk after a walk.** -/
theorem Keeps.bind (h : Keeps test P m) (hf : ∀ a, P a → Keeps test Q (f a)) :
    Keeps test Q (m >>= f) := by
  intro r hr
  obtain ⟨hlast, hP⟩ := h r hr
  rw [run_bind]
  generalize m.run.run r = out at hlast hP
  rcases out with ⟨e | a, last⟩
  · refine ⟨hlast, fun b hb => ?_⟩
    cases hb
  · exact hf a (hP a rfl) last hlast

theorem Keeps.get_bind {g : Registry η → Walk η ε β} (h : ∀ r, r.IsTree test → Keeps test Q (g r)) :
    Keeps test Q (get >>= g) :=
  fun r hr => h r hr r hr

theorem Keeps.modify {g : Registry η → Registry η} (h : ∀ r, r.IsTree test → (g r).IsTree test) :
    Keeps test (fun _ => True) (modify g : Walk η ε Unit) :=
  fun r hr => ⟨h r hr, fun _ _ => trivial⟩

theorem Keeps.noteAll {es : List Event} (h : Event.CanTell es) :
    Keeps test (fun _ => True) (noteAll es : Walk η ε Unit) :=
  .modify fun _ hr => hr.noteAll h

theorem Keeps.described (r : Reading α) :
    Keeps test (fun a => r = .ok a) (described r : Walk η ε α) := by
  cases r with
  | ok a => exact .pure rfl
  | error ps => exact .throw _

theorem Keeps.accepted {r : Except SchemaError α} (h : ∀ a, r = .ok a → P a) :
    Keeps test P (accepted r : Walk η ε α) := by
  cases r with
  | ok a => exact .pure (h a rfl)
  | error e => exact .throw _

/-! ### The steps of a walk -/

/-- Whether what a walk adds to the schema are trees. -/
structure Setting.IsTree (test : Scalar → Bool) (setting : Setting η ε) : Prop where
  foreignKey : (Value.map setting.settings.foreignKey).isTreeOf test = true
  belongsToOne : setting.binder.belongsToOne.isTreeOf test = true
  hasMany : setting.binder.hasMany.isTreeOf test = true

variable {setting : Setting η ε} {node : Fields} {relations : Entries Scalar (Relation η)}
  {results : Entries Step (Visit η)} {ctx : Option Context} {step : Option Step} {at_ : Pointer}

theorem kindsTree_attach {name : Scalar} {r : Relation η} {out : Entries Scalar (Relation η)}
    (hkinds : Relation.KindsTree test relations) (hr : r.kind.isTreeOf test = true)
    (h : attach relations name r at_ = .ok out) : Relation.KindsTree test out := by
  unfold attach at h
  split at h
  · cases h
  · obtain rfl := Except.ok.inj h
    intro e he
    rcases List.mem_append.mp he with hmem | hmem
    · exact hkinds e hmem
    · rwa [List.mem_singleton.mp hmem]

theorem kindsTree_merge {incoming out : Entries Scalar (Relation η)}
    (hkinds : Relation.KindsTree test relations) (hincoming : Relation.KindsTree test incoming)
    (h : merge relations incoming at_ = .ok out) : Relation.KindsTree test out := by
  induction incoming generalizing relations with
  | nil =>
    obtain rfl : relations = out := Except.ok.inj h
    exact hkinds
  | cons e incoming ih =>
    unfold merge at h
    rw [List.foldlM_cons] at h
    cases hattach : attach relations e.1 e.2 at_ with
    | error _ =>
      rw [hattach] at h
      cases h
    | ok more =>
      rw [hattach] at h
      exact ih (kindsTree_attach hkinds (hincoming e List.mem_cons_self) hattach)
        (fun e he => hincoming e (List.mem_cons_of_mem _ he)) h

/-- The relations of a table have different names. -/
theorem kindsTree_relationNames {named : Entries String (Relation η)}
    (hkinds : Relation.KindsTree test relations) (h : relationNames relations = .ok named) :
    Entries.Distinct named ∧ Relation.KindsTree test named := by
  obtain ⟨pairs, hall, rfl⟩ := Reading.map_eq_ok_iff.mp (Reading.under_eq_ok_iff.mp h)
  refine ⟨Entries.distinct_ofPairs pairs, fun e he => ?_⟩
  have hread : (.ok e : Reading _) ∈ pairs.map Except.ok :=
    List.mem_map.mpr ⟨e, Entries.mem_of_mem_ofPairs he, rfl⟩
  rw [← Reading.all_eq_ok_iff.mp hall] at hread
  obtain ⟨e', he', hkey⟩ := List.mem_map.mp hread
  obtain ⟨name, -, rfl⟩ := Reading.map_eq_ok_iff.mp hkey
  exact hkinds e' he'

theorem isTree_draftOf (setting : Setting η ε) {rewritten : Entries Scalar Fragment}
    (hrewritten : Entries.IsObject (Fragment.IsTree test) rewritten)
    {named : Entries String (Relation η)} (hd : Entries.Distinct named)
    (hkinds : Relation.KindsTree test named) (i : Identity) :
    (draftOf setting i rewritten named).IsTree test where
  schema := hrewritten.put rfl
    (Fragment.isTree_map_iff.mpr ((Fragment.isObject_entries hrewritten).filter _))
  distinct := hd
  kinds := hkinds

/-- The entries that are no overrides are trees. -/
theorem isObject_withoutOverrides (h : (Value.map node).isTreeOf test = true)
    (settings : Settings) :
    Entries.IsObject (Fragment.IsTree test) (withoutOverrides settings node) :=
  ((Value.isTreeOf_map_iff_isObject.mp h).filter _).mapValues fun _ hv => .verbatim hv

theorem isTree_rebuild (hset : setting.IsTree test) (hresults : ∀ e ∈ results, e.2.IsTree test)
    {properties : Fields}
    (hproperties : ∀ e ∈ properties, e.1.isText = true ∧ e.2.isTreeOf test = true)
    {columns : Entries Scalar Fragment} (hcolumns : Entries.IsObject (Fragment.IsTree test) columns)
    (hkinds : Relation.KindsTree test relations)
    {out : Entries Scalar Fragment × Entries Scalar (Relation η)}
    (h : rebuild setting ctx at_ results properties columns relations = .ok out) :
    Entries.IsObject (Fragment.IsTree test) out.1 ∧ Relation.KindsTree test out.2 := by
  induction properties generalizing columns relations with
  | nil =>
    obtain rfl := Except.ok.inj h
    exact ⟨hcolumns, hkinds⟩
  | cons e rest ih =>
    obtain ⟨name, property⟩ := e
    obtain ⟨⟨hname, hproperty⟩, hrest⟩ := List.forall_mem_cons.mp hproperties
    unfold rebuild at h
    split at h
    · exact ih hrest (hcolumns.put hname (.verbatim hproperty)) hkinds h
    · next result hget =>
      have hresult := hresults _ (Entries.mem_of_get?_eq_some hget)
      split at h
      · exact ih hrest hcolumns hkinds h
      · split at h
        · split at h
          · cases h
          · next attached hattach =>
            exact ih hrest (hcolumns.put rfl (.verbatim hset.foreignKey))
              (kindsTree_attach hkinds hset.belongsToOne hattach) h
        · exact ih hrest (hcolumns.put hname hresult.schema) hkinds h

theorem keeps_emit (hset : setting.IsTree test) {rewritten : Entries Scalar Fragment}
    (hrewritten : Entries.IsObject (Fragment.IsTree test) rewritten)
    (hkinds : Relation.KindsTree test relations) :
    Keeps test (Visit.IsTree test) (emit setting at_ node rewritten relations) := by
  unfold emit
  refine .bind (.described _) fun i _ => .bind (.described _) fun named hnamed =>
    .get_bind fun r _ => ?_
  obtain ⟨hd, hnamed⟩ := kindsTree_relationNames hkinds hnamed
  have hdraft := (isTree_draftOf setting hrewritten hd hnamed i).withColumns
    hset.foreignKey (r.columnsOf i.tableName)
  simp only
  split
  · exact .throw _
  · exact .bind (.modify fun _ hr => hr.register hdraft _ _ _) fun _ _ =>
      .pure ⟨.table _, by simp [Relation.KindsTree]⟩

theorem keeps_finishArray (hset : setting.IsTree test) {schema : Fragment}
    (hschema : schema.IsTree test)
    (hkinds : Relation.KindsTree test relations) (target : Target η) :
    Keeps test (Visit.IsTree test)
      (finishArray setting ctx step at_ node target schema relations) := by
  unfold finishArray
  split
  · refine .bind (.described _) fun join _ => .bind (.modify fun r hr => ?_) fun _ _ =>
      .bind (.accepted fun _ hattach => kindsTree_attach hkinds hset.hasMany hattach)
        fun _ hkinds => .pure ⟨hschema, hkinds⟩
    unfold requestFor
    split
    · exact hr.request hset.foreignKey _ _
    · exact hr
  · exact .bind (.noteAll (by simp [Event.CanTell])) fun _ _ => .pure ⟨hschema, hkinds⟩

theorem keeps_closing (hset : setting.IsTree test) {items : Option (Visit η)}
    (hitems : ∀ v, items = some v → v.IsTree test) {kept : Entries Scalar Fragment}
    (hkept : Entries.IsObject (Fragment.IsTree test) kept)
    (hkinds : Relation.KindsTree test relations) :
    Keeps test (Visit.IsTree test) (closing setting ctx step at_ node items kept relations) := by
  have hfilled : Entries.IsObject (Fragment.IsTree test)
      (items.elim kept fun result => kept.put (.text "items") result.schema) := by
    cases items with
    | none => exact hkept
    | some v => exact hkept.put rfl (hitems v rfl).schema
  unfold closing
  simp only
  split
  · exact keeps_emit hset hfilled hkinds
  · split
    · exact keeps_finishArray hset (Fragment.isTree_map_iff.mpr hfilled) hkinds _
    · exact .pure ⟨Fragment.isTree_map_iff.mpr hfilled, hkinds⟩

/-- **The end of a visit** gives a tree if the visits of the children do. -/
theorem keeps_finish (hset : setting.IsTree test) (hnode : (Value.map node).isTreeOf test = true)
    (hresults : ∀ e ∈ results, e.2.IsTree test) (hkinds : Relation.KindsTree test relations) :
    Keeps test (Visit.IsTree test) (finish setting ctx step at_ node results relations) := by
  have hkept := isObject_withoutOverrides hnode setting.settings
  have hitems : ∀ v, results.get? .items = some v → v.IsTree test :=
    fun v hv => hresults _ (Entries.mem_of_get?_eq_some hv)
  rw [finish_eq_closing]
  simp only
  split
  · exact keeps_closing hset hitems hkept hkinds
  · next properties hproperties =>
    have hexact := Value.isTreeOf_map_iff_isObject.mp (Fields.isTree_of_mapping? hnode hproperties)
    refine .bind (.accepted fun out hout => isTree_rebuild hset hresults
      (fun e he => ⟨hexact.texts e he, hexact.values e he⟩) Entries.isObject_nil hkinds hout)
      fun out hout => ?_
    exact keeps_closing hset hitems (hkept.put rfl (Fragment.isTree_map_iff.mpr hout.1)) hout.2

theorem keeps_visitAll {children : List (Step × Fields)}
    (hvisit : ∀ c ∈ children, ∀ at_, Pointer.isWritable at_ = true →
      Keeps test (Visit.IsTree test) (visit setting ctx (some c.1) at_ (Tree.ofFields c.2)))
    (hpaths : ∀ c ∈ children, Pointer.isWritable c.1.path = true)
    (hat : Pointer.isWritable at_ = true) (hkinds : Relation.KindsTree test relations) :
    Keeps test (fun out => (∀ e ∈ out.1, e.2.IsTree test) ∧ Relation.KindsTree test out.2)
      (visitAll setting ctx at_ (children.map fun c => (c.1, Tree.ofFields c.2)) relations) := by
  induction children generalizing relations with
  | nil => exact .pure ⟨by simp, hkinds⟩
  | cons c rest ih =>
    obtain ⟨step, sub⟩ := c
    obtain ⟨hfirst, hrest⟩ := List.forall_mem_cons.mp hvisit
    obtain ⟨hpath, hpaths⟩ := List.forall_mem_cons.mp hpaths
    have hbelow := Pointer.isWritable_append hat hpath
    rw [List.map_cons, visitAll_cons]
    refine .bind (hfirst _ hbelow) fun v hv => .bind (.accepted fun _ hmerge =>
      kindsTree_merge hkinds ?_ hmerge) fun _ hkinds => .bind (ih hrest hpaths hkinds)
        fun out hout => .pure ⟨List.forall_mem_cons.mpr ⟨hv, hout.1⟩, hout.2⟩
    unfold upOf
    split
    · simp [Relation.KindsTree]
    · exact hv.kinds

/-- **A visit of a node that is a tree** keeps the registry one of trees, and the node becomes a
tree. -/
theorem keeps_visit (hset : setting.IsTree test) (hnode : (Value.map node).isTreeOf test = true)
    (above : Option Context) (step : Option Step) (hat : Pointer.isWritable at_ = true) :
    Keeps test (Visit.IsTree test) (visit setting above step at_ (Tree.ofFields node)) := by
  induction node using Fields.walkInduction generalizing above step at_ with
  | h node ih =>
    rw [Tree.ofFields_eq node]
    simp only [visit]
    have hnotes : Event.CanTell (node.unvisitedTables.map fun p => .notVisited (at_ ++ p)) := by
      intro p hp
      obtain ⟨q, hq, heq⟩ := List.mem_map.mp hp
      obtain rfl := Event.notVisited.inj heq
      exact Pointer.isWritable_append hat (Fields.isWritable_of_mem_unvisitedTables hnode hq)
    refine .bind (.noteAll hnotes) fun _ _ => .bind (.described _) fun ctx _ => ?_
    cases badKey? node with
    | some key => exact .throw _
    | none =>
      refine .bind (keeps_visitAll (fun c hc at_ hat => ?_)
        (fun c hc => Fields.isWritable_path_of_mem_children hnode hc) hat
        (by simp [Relation.KindsTree])) fun out hout => keeps_finish hset hnode hout.1 hout.2
      exact ih c hc (Fields.isTree_of_mem_children hnode hc) _ _ hat

end Walk

variable {settings : Settings} {binder : Binder η ε} {schema : Fields}

/-- Nothing is logged of tables that are not visited before the walk begins. -/
theorem canTell_checkLog : Event.CanTell (checkLog settings schema) := by
  refine Event.canTell_append.mpr ⟨?_, ?_⟩
  · unfold Override.checkEvents
    simp only
    split <;> simp [Event.CanTell]
  · simp [Event.CanTell, Report.warningEvents]

/-- **Compiled schemas are trees.** If a schema is a tree of scalars that pass a test, and the
schema of a foreign key and the kinds of relations are, so are the descriptors of all tables; and
the log can be written. -/
theorem compile_trees (ht : Scalar.PassesTexts test)
    (hset : (⟨settings, binder⟩ : Walk.Setting η ε).IsTree test)
    (hschema : (Value.map schema).isTreeOf test = true) :
    let outcome := compile binder settings (.map schema)
    (∀ d ∈ outcome.tables, d.dump.isTreeOf test = true) ∧ Event.CanTell outcome.log := by
  have hbegin : Event.CanTell (checkLog settings schema) := canTell_checkLog
  cases hrefusal : (Override.checkAll settings schema).refusal? with
  | some e =>
    rw [compile_of_errors binder settings schema hrefusal]
    exact ⟨by simp, hbegin⟩
  | none =>
    have hstart : ({ log := checkLog settings schema } : Registry η).IsTree test :=
      ⟨by simp, hbegin⟩
    have hwalk : Walk.Keeps test (Visit.IsTree test)
        (Walk.visit ⟨settings, binder⟩ none none [] (Tree.ofFields schema)) :=
      Walk.keeps_visit hset hschema none none rfl
    have hlast : (walkSchema binder settings schema (checkLog settings schema)).2.IsTree test :=
      (hwalk _ hstart).1
    rw [compile_of_refusal?_eq_none binder hrefusal]
    generalize walkSchema binder settings schema (checkLog settings schema) = out at hlast
    rcases out with ⟨e | root, r⟩
    · exact ⟨hlast.isTree_dump ht, hlast.log⟩
    · exact ⟨hlast.isTree_dump ht,
        Event.canTell_append.mpr ⟨hlast.log, by simp [Event.CanTell]⟩⟩

end NestedTables
