import NestedTables.Proofs.Compile.Corresponds
import NestedTables.Proofs.Override.Accepted

/-!
# Findings about two schemas

The findings about a schema are those about its visited nodes, one after the other. So if two
schemas have corresponding nodes at the same pointers, and the errors about corresponding nodes are
told in the same way, then so are the errors about the schemas
(`Override.map_errors_checkAll`). What is told of an error may be all of it, or its code and
pointer.
-/

namespace NestedTables

variable {settings settings' : Settings} {schema schema' : Fields}

/-- Lists of lists that go along with each other are put together to one list. -/
theorem flatMap_eq_of_forall₂ {α β γ : Type} {f : α → List γ} {g : β → List γ} {as : List α}
    {bs : List β} (h : List.Forall₂ (fun a b => g b = f a) as bs) : bs.flatMap g = as.flatMap f := by
  induction h with
  | nil => rfl
  | cons hab _ ih => rw [List.flatMap_cons, List.flatMap_cons, hab, ih]

/-- Corresponding nodes that are tables of the same names. -/
theorem Fields.tableNames_eq (h : List.Forall₂ (fun n n' : Pointer × Fields =>
      n'.2.isTable = n.2.isTable ∧ n'.2.tableName? settings' = n.2.tableName? settings)
    schema.nodes schema'.nodes) : schema'.tableNames settings' = schema.tableNames settings := by
  have hfilter : ∀ (settings : Settings) (ns : List (Pointer × Fields)),
      (ns.filter (·.2.isTable)).flatMap
          (fun n => ((n.2.tableName? settings).map Value.texts).getD []) =
        ns.flatMap fun n => if n.2.isTable then ((n.2.tableName? settings).map Value.texts).getD []
          else [] := by
    intro settings ns
    induction ns with
    | nil => rfl
    | cons n ns ih => cases hn : n.2.isTable <;> simp [hn, ih]
  rw [tableNames, tableNames, hfilter, hfilter]
  refine congrArg _ (flatMap_eq_of_forall₂ (h.imp fun n n' hn => ?_))
  rw [hn.1, hn.2]

/-- Nodes that say the same of themselves have titles with the same faults. -/
theorem Fields.SaysSame.titleComplaint?_eq {node node' : Fields}
    (h : node.SaysSame settings settings' node') :
    Override.titleComplaint? settings' node' = Override.titleComplaint? settings node := by
  rw [Override.titleComplaint?, Override.titleComplaint?, Override.namesBoth, Override.namesBoth,
    h.isTable_eq, h.override? _ (by simp), h.override? _ (by simp), value, value, value, value,
    h.value? "title" (by simp), h.value? identityKey (by simp)]

namespace Override

variable {γ : Type} (f : Finding → γ)

/-- What is told of the errors about a node. -/
def tell (at_ : Pointer) (complaints : List Complaint) : List γ :=
  (complaints.filter Complaint.isError).map fun c => f (c.finding at_)

theorem tell_append (at_ : Pointer) (complaints complaints' : List Complaint) :
    tell f at_ (complaints ++ complaints') = tell f at_ complaints ++ tell f at_ complaints' := by
  rw [tell, List.filter_append, List.map_append]
  rfl

/-- Warnings are not told. -/
theorem tell_of_warnings (at_ : Pointer) {complaints : List Complaint}
    (h : ∀ c ∈ complaints, c.isError = false) : tell f at_ complaints = [] := by
  rw [tell, List.filter_eq_nil_iff.mpr fun c hc => by simp [h c hc], List.map_nil]

/-- Of a key nothing is told. -/
theorem tell_valueComplaints (settings : Settings) (node : Fields) (at_ : Pointer) :
    tell f at_ (valueComplaints settings node) =
      tell f at_ (textual.filterMap fun o => textComplaint? settings o node) ++
        tell f at_ (titleComplaint? settings node).toList := by
  have hkeys : ∀ c ∈ node.filterMap fun e => keyComplaint? settings e.1, c.isError = false := by
    intro c hc
    obtain ⟨e, -, he⟩ := List.mem_filterMap.mp hc
    obtain ⟨_, -, rfl⟩ := keyComplaint?_cases he
    rfl
  rw [valueComplaints, tell_append, tell_append, tell_of_warnings f at_ hkeys, List.append_nil]

/-- Of joins nothing is told but what is wrong with a join table. -/
theorem tell_joinComplaints (settings : Settings) (tables : List String) (node : Fields)
    (at_ : Pointer) : tell f at_ (joinComplaints settings tables node) =
      tell f at_
        ((settings.override? .joinThrough node).bind (throughComplaint? settings tables)).toList := by
  unfold joinComplaints
  generalize settings.override? .joinThrough node = through
  simp only
  split
  · next hnone =>
    obtain rfl : through = none := by simpa using (Bool.and_eq_true_iff.mp hnone).2
    rfl
  · rw [tell_append, tell_append, tell_of_warnings f at_ (by split <;> simp [Complaint.isError,
      Complaint.severity]), tell_of_warnings f at_ (by split <;> simp [Complaint.isError,
      Complaint.severity]), List.nil_append, List.nil_append]

theorem map_errors_flatMap (complaints : Fields → List Complaint) (ns : List (Pointer × Fields)) :
    ((ns.flatMap fun n => (complaints n.2).map (·.finding n.1)).filter Finding.isError).map f =
      ns.flatMap fun n => tell f n.1 (complaints n.2) := by
  rw [List.filter_flatMap, List.map_flatMap]
  refine List.flatMap_congr fun n _ => ?_
  rw [List.filter_map, List.map_map]
  rfl

/-- **The errors about two schemas are told in the same way** if those about their nodes are. -/
theorem map_errors_checkAll
    (htables : schema'.tableNames settings' = schema.tableNames settings)
    (h : List.Forall₂ (fun n n' : Pointer × Fields => n.1 = n'.1 ∧
        tell f n.1 (valueComplaints settings' n'.2) = tell f n.1 (valueComplaints settings n.2) ∧
        tell f n.1 (joinComplaints settings' (schema.tableNames settings) n'.2) =
          tell f n.1 (joinComplaints settings (schema.tableNames settings) n.2))
      schema.nodes schema'.nodes) :
    (checkAll settings' schema').errors.map f = (checkAll settings schema).errors.map f := by
  have herrors : ∀ (settings : Settings) (schema : Fields),
      (checkAll settings schema).errors.map f =
        (schema.nodes.flatMap fun n => tell f n.1 (valueComplaints settings n.2)) ++
          schema.nodes.flatMap fun n =>
            tell f n.1 (joinComplaints settings (schema.tableNames settings) n.2) := by
    intro settings schema
    rw [checkAll, Report.merge, Report.errors, List.filter_append, List.map_append]
    exact congrArg₂ _ (map_errors_flatMap f _ _) (map_errors_flatMap f _ _)
  rw [herrors, herrors, htables]
  refine congrArg₂ _ (flatMap_eq_of_forall₂ (h.imp fun n n' hn => ?_))
    (flatMap_eq_of_forall₂ (h.imp fun n n' hn => ?_))
  · rw [← hn.1, hn.2.1]
  · rw [← hn.1, hn.2.2]

end Override

/-! ### Refusals -/

/-- Whether two errors are of one kind, with the same pointer. -/
def SchemaError.SameKind : SchemaError → SchemaError → Prop
  | .override _ p, .override _ p' => p = p'
  | .joinTable _ p, .joinTable _ p' => p = p'
  | .collision name p, .collision name' p' => name = name' ∧ p = p'
  | _, _ => False

/-- **The kind of a refusal** and its pointer depend on the codes and the pointers of the errors. -/
theorem Report.refusal?_rel {r r' : Report} (h : r'.errors.map (fun x => (x.code, x.pointer)) =
    r.errors.map fun x => (x.code, x.pointer)) :
    Option.Rel SchemaError.SameKind r.refusal? r'.refusal? := by
  unfold refusal?
  cases herrors : r.errors with
  | nil =>
    rw [herrors, List.map_nil, List.map_eq_nil_iff] at h
    rw [h]
    exact .none
  | cons first others =>
    rw [herrors, List.map_cons, List.map_eq_cons_iff] at h
    obtain ⟨first', others', herrors', hfirst, -⟩ := h
    obtain ⟨hcode, hpointer⟩ := Prod.mk.inj hfirst
    simp only [herrors', hcode, hpointer]
    split <;> exact .some rfl

end NestedTables
