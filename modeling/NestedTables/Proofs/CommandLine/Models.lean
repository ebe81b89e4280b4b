import NestedTables.CommandLine
import NestedTables.Proofs.Compile.Exact
import NestedTables.Proofs.Compile.TableNames

/-!
# The models that the program prints

The program has no use for handles. Its binder counts the tables, so that the handle of a model is
the place of the last table of that name (`countsTables_of_result_eq_ok`). What the program prints
has the descriptor in that place under the name of the model
(`CommandLine.Job.showsModels_payload`).
-/

namespace NestedTables

open CommandLine (Job)

/-- The last of the elements of which something holds. -/
theorem exists_last {α : Type} {p : α → Prop} {as : List α} (h : ∃ a ∈ as, p a) :
    ∃ done a later, as = done ++ a :: later ∧ p a ∧ ∀ b ∈ later, ¬ p b := by
  induction as using List.reverseRecOn with
  | nil => simp at h
  | append_singleton as a ih =>
    by_cases ha : p a
    · exact ⟨as, a, [], rfl, ha, by simp⟩
    · obtain ⟨b, hb, hpb⟩ := h
      have hbefore : b ∈ as := by
        rcases List.mem_append.mp hb with hmem | hmem
        · exact hmem
        · exact absurd (List.mem_singleton.mp hmem ▸ hpb) ha
      obtain ⟨done, c, later, rfl, hc, hlater⟩ := ih ⟨b, hbefore, hpb⟩
      refine ⟨done, c, later ++ [a], by simp, hc, fun d hd => ?_⟩
      rcases List.mem_append.mp hd with hmem | hmem
      · exact hlater d hmem
      · exact List.mem_singleton.mp hmem ▸ ha

/-! ### Counted tables -/

/-- Whether models are those of some tables: each name, in the order in which the names came first,
with the place of the last table of that name. -/
structure CountsTables (models : Entries String Nat) (tables : List (Descriptor Nat)) : Prop where
  keys : models.keys = (tables.map Descriptor.modelName).eraseDups
  last : ∀ done d later, tables = done ++ d :: later →
    (∀ d' ∈ later, d'.modelName ≠ d.modelName) → models.get? d.modelName = some done.length

section Counting

variable {job : Job} {settings : Settings} {schema : Fields} {calls : List (Handover Nat Empty)}

/-- The handle of a table is the number of those before it. -/
theorem HandedOver.answer_of_counting (h : HandedOver job.binder settings schema calls)
    {done later : List (Handover Nat Empty)} {c : Handover Nat Empty}
    (hcalls : calls = done ++ c :: later) : c.answer = .ok done.length := by
  obtain ⟨hanswer, hbefore⟩ := h.before done c later hcalls
  have hlength : c.before.length = done.length := by
    simpa using congrArg List.length hbefore
  rw [← hanswer, ← hlength]
  exact congrArg Except.ok (Nat.zero_add _)

/-- **The models of the program's compilation** count its tables. -/
theorem countsTables_of_result_eq_ok {models : Entries String Nat}
    (hok : (compile job.binder settings (.map schema)).result = .ok models) :
    CountsTables models (compile job.binder settings (.map schema)).tables := by
  have hnone := refusal?_eq_none_iff.mpr (isValid_of_result_eq_ok _ hok)
  obtain ⟨calls, hmakes⟩ := Walk.hands_visit (⟨settings, job.binder⟩ : Walk.Setting Nat Empty) none
    none [] (Tree.ofFields schema) { log := checkLog settings schema }
  have h : HandedOver job.binder settings schema calls := .of_makes hnone hmakes
  have hnames : (compile job.binder settings (.map schema)).tables.map Descriptor.modelName =
      calls.map fun c => c.table.modelName := by
    simpa [Function.comp_def, Descriptor.identity] using
      congrArg (List.map Walk.Identity.modelName) (h.map_identity_tables hok)
  obtain ⟨-, hkeys, hlast⟩ := h.result models hok
  refine ⟨hnames ▸ hkeys, fun done d later htables hlater => ?_⟩
  -- the hand-over of the table stands in the same place
  rw [htables, List.map_append, List.map_cons] at hnames
  obtain ⟨done', rest, hcalls, hdone, hrest⟩ := List.append_eq_map_iff.mp hnames
  obtain ⟨c, later', rfl, hc, hlater'⟩ := List.map_eq_cons_iff.mp hrest
  obtain ⟨handle, hanswer, hget⟩ := hlast done' c later' hcalls
  have hlength : done'.length = done.length := by
    simpa using congrArg List.length hdone
  rw [h.answer_of_counting hcalls, Except.ok.injEq] at hanswer
  rw [← hc, ← hlength, hanswer]
  refine hget fun c' hc' => ?_
  have hmem : c'.table.modelName ∈ later.map Descriptor.modelName :=
    hlater' ▸ List.mem_map.mpr ⟨c', hc', rfl⟩
  obtain ⟨d', hd', heq⟩ := List.mem_map.mp hmem
  rw [← heq, hc]
  exact hlater d' hd'

end Counting

namespace CountsTables

variable {models : Entries String Nat} {tables : List (Descriptor Nat)}

theorem distinct (h : CountsTables models tables) : Entries.Distinct models := by
  rw [Entries.Distinct, h.keys]
  exact Stage.nodup_eraseDups _

/-- In the place that stands for a model there is a table of that name. -/
theorem exists_table (h : CountsTables models tables) {m : String × Nat} (hm : m ∈ models) :
    ∃ d, tables[m.2]? = some d ∧ d.modelName = m.1 := by
  have hkey : m.1 ∈ models.keys := List.mem_map.mpr ⟨m, hm, rfl⟩
  rw [h.keys, List.mem_eraseDups, List.mem_map] at hkey
  obtain ⟨done, d, later, htables, hname, hlater⟩ := exists_last hkey
  have hget := h.last done d later htables fun d' hd' heq => hlater d' hd' (heq.trans hname)
  rw [hname, Entries.get?_eq_some_of_mem h.distinct hm, Option.some.injEq] at hget
  exact ⟨d, by simp [htables, hget], hname⟩

end CountsTables

/-! ### What is printed -/

/-- Whether entries show the models of some tables: each name, in the order in which the names came
first, with the document of the last table of that name. -/
structure ShowsModels {η : Type} (tables : List (Descriptor η)) (es : Fields) : Prop where
  keys : es.keys = (tables.map Descriptor.modelName).eraseDups.map Scalar.text
  last : ∀ done d later, tables = done ++ d :: later →
    (∀ d' ∈ later, d'.modelName ≠ d.modelName) → es.get? (.text d.modelName) = some d.dump

namespace CommandLine.Job

variable {models : Entries String Nat} {tables : List (Descriptor Nat)}

theorem keys_payload (h : CountsTables models tables) :
    (payload models tables).keys = models.keys.map Scalar.text := by
  have hkeys : ∀ ms : Entries String Nat, (∀ m ∈ ms, ∃ d, tables[m.2]? = some d) →
      (payload ms tables).keys = ms.keys.map Scalar.text := by
    intro ms hms
    induction ms with
    | nil => rfl
    | cons m ms ih =>
      obtain ⟨⟨d, hd⟩, hrest⟩ := List.forall_mem_cons.mp hms
      have hcons : payload (m :: ms) tables = (.text m.1, d.dump) :: payload ms tables := by
        simp [payload, hd]
      rw [hcons]
      simpa [Entries.keys] using ih hrest
  refine hkeys models fun m hm => ?_
  obtain ⟨d, hd, -⟩ := h.exists_table hm
  exact ⟨d, hd⟩

theorem distinct_payload (h : CountsTables models tables) :
    Entries.Distinct (payload models tables) := by
  have hinj : Function.Injective Scalar.text := fun _ _ heq => Scalar.text.inj heq
  rw [Entries.Distinct, keys_payload h]
  exact h.distinct.map hinj

/-- **What the program prints** are the models of its tables. -/
theorem showsModels_payload (h : CountsTables models tables) :
    ShowsModels tables (payload models tables) where
  keys := by rw [keys_payload h, h.keys]
  last done d later htables hlater := by
    have hmem := Entries.mem_of_get?_eq_some (h.last done d later htables hlater)
    refine Entries.get?_eq_some_of_mem (distinct_payload h) (List.mem_filterMap.mpr ⟨_, hmem, ?_⟩)
    simp [htables]

/-- What the program prints is a tree if the descriptors are. -/
theorem isTreeOf_payload {test : Scalar → Bool} (h : CountsTables models tables)
    (hdumps : ∀ d ∈ tables, d.dump.isTreeOf test = true) :
    (Value.map (payload models tables)).isTreeOf test = true := by
  have hentry : ∀ e ∈ payload models tables, e.1.isText = true ∧ e.2.isTreeOf test = true := by
    intro e he
    obtain ⟨m, -, hsome⟩ := List.mem_filterMap.mp he
    obtain ⟨d, hd, rfl⟩ := Option.map_eq_some_iff.mp hsome
    exact ⟨rfl, hdumps d (List.mem_of_getElem? hd)⟩
  exact (Value.isTreeOf_map_iff _).mpr ⟨distinct_payload h, hentry⟩

end CommandLine.Job

end NestedTables
