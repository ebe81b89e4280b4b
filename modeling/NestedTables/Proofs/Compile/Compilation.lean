import NestedTables.Compile
import NestedTables.Proofs.Compile.Adequacy
import NestedTables.Proofs.Override.Accepted

/-!
# The ends of a compilation

A compilation checks the overrides first. If one of them is at fault nothing else happens
(`compile_of_errors`). If none is, the compilation performs the acts of the schema, and there
are three ways in which it can end (`compile_ends`): all acts have been performed; or the binder
has refused a table; or two sites of a table have the same name.

This holds of settings that are valid and of a schema whose keys are texts. What is said of
compilations elsewhere is proved from the three ways in which they end.
-/

namespace NestedTables

open Walk (Setting)

variable {η ε : Type} (binder : Binder η ε) (settings : Settings) (schema : Fields)

/-- The acts that the compilation of a schema sets out to perform. -/
def compileActs : List Act :=
  Walk.acts (⟨settings, binder⟩ : Setting η ε) none none [] 0 (Tree.ofFields schema)

/-- What is logged before the walk begins. -/
def checkLog : List Event :=
  Override.checkEvents settings schema ++ (Override.checkAll settings schema).warningEvents

/-- **A compilation that finds an override at fault** does nothing else, whatever the binder. -/
theorem compile_of_errors {e : SchemaError}
    (h : (Override.checkAll settings schema).refusal? = some e) :
    compile binder settings (.map schema) =
      { result := .error (.schema e), log := checkLog settings schema } := by
  simp only [compile, compileFields, h]
  rfl

/-- The ways in which a compilation ends that has found no override at fault. -/
inductive CompileEnds : Outcome η ε → Prop
  | finished {s : Stage η}
      (h : (Stage.start (checkLog settings schema)).Performs ⟨settings, binder⟩
        (compileActs binder settings schema) s)
      (hnames : ∀ t ∈ (Tree.ofFields schema).tables, t.2.siteNames.Nodup) {log : List Event} :
      CompileEnds ⟨.ok s.registry.models, s.registry.descriptors, log⟩
  | refused {done rest : List Act} {at_ : Pointer} {draft : Draft Nat} {s : Stage η} {reason : ε}
      (hacts : compileActs binder settings schema = done ++ .register at_ draft :: rest)
      (h : (Stage.start (checkLog settings schema)).Performs ⟨settings, binder⟩ done s)
      (hrefuse : s.answer ⟨settings, binder⟩ draft = .error reason) {log : List Event} :
      CompileEnds ⟨.error (.binder reason), s.registry.descriptors, log⟩
  | collided {done rest : List Act} {s : Stage η} {name : Scalar} {at_ : Pointer}
      {t : Pointer × Tree} (hacts : compileActs binder settings schema = done ++ rest)
      (h : (Stage.start (checkLog settings schema)).Performs ⟨settings, binder⟩ done s)
      (ht : t ∈ (Tree.ofFields schema).tables) (hclash : Walk.Clash t name at_)
      {log : List Event} :
      CompileEnds ⟨.error (.schema (.collision name (.text at_.written))),
        s.registry.descriptors, log⟩

variable {settings schema}

/-- Around no table nothing is handed up. -/
theorem Walk.outline_relations_root (setting : Setting η ε) (start : Nat) :
    (outline setting none none start (Tree.ofFields schema)).relations = [] := by
  cases htable : schema.isTable with
  | true => exact outline_relations_of_isTable htable none none start
  | false =>
    have hctx : contextIn setting.settings none none schema = none := by simp [contextIn, htable]
    rw [outline_relations_of_not_table htable, hctx, gathered_none,
      manyOf_of_many? _ (many?_of_no_context _ _)]
    rfl

/-- A schema is refused exactly when the checks find an error. -/
theorem refusal?_eq_none_iff : (Override.checkAll settings schema).refusal? = none ↔
    (Override.checkAll settings schema).isValid = true := by
  rw [Report.isValid_iff, Report.refusal?]
  cases herrors : (Override.checkAll settings schema).errors with
  | nil => simpa [Report.errors] using herrors
  | cons f fs =>
    have hf : f ∈ (Override.checkAll settings schema).errors := by simp [herrors]
    obtain ⟨hmem, herror⟩ := List.mem_filter.mp hf
    simp only [reduceCtorEq, false_iff]
    exact fun h => by simp [h f hmem] at herror

/-- **The three ways in which a compilation ends** that has found no override at fault. -/
theorem compile_ends (hset : settings.IsValid) (hkeyed : schema.isKeyed = true)
    (hvalid : (Override.checkAll settings schema).isValid = true) :
    CompileEnds binder settings schema (compile binder settings (.map schema)) := by
  have hrefusal := refusal?_eq_none_iff.mpr hvalid
  have hwalk := Walk.walks_visit (⟨settings, binder⟩ : Setting η ε) hkeyed
    (fun n hn => Override.sound_of_isValid hset hvalid hn)
    (Stage.start (checkLog settings schema)) none none [] (by simp)
  unfold Walk.Walks at hwalk
  change Walk.Ends _ _ _ _ _ (walkSchema binder settings schema (checkLog settings schema)) at hwalk
  unfold checkLog at hwalk
  simp only [compile, compileFields, hrefusal]
  -- what is seen of the compilation depends on how the walk has ended, and on nothing else
  generalize walkSchema binder settings schema _ = out at hwalk ⊢
  cases hwalk with
  | finished h hpost => exact .finished h hpost.2.2
  | refused hacts h hrefuse => exact .refused hacts h hrefuse
  | collided hacts h hclash =>
    rcases hclash with ⟨t, ht, hclash⟩ | ⟨hdup, -⟩
    · exact .collided hacts h ht hclash
    · rw [Walk.outline_relations_root] at hdup
      exact absurd hdup (by simp [Entries.keys])

/-- A compilation that gives a result has found no override at fault. -/
theorem isValid_of_result_eq_ok {models : Entries String η}
    (h : (compile binder settings (.map schema)).result = .ok models) :
    (Override.checkAll settings schema).isValid = true := by
  rw [← refusal?_eq_none_iff]
  cases hrefusal : (Override.checkAll settings schema).refusal? with
  | none => rfl
  | some e =>
    rw [compile_of_errors binder settings schema hrefusal] at h
    simp at h

/-- **A compilation that gives a result** performs all acts of the schema, and no two sites of a
table have the same name. -/
theorem exists_finished (hset : settings.IsValid) (hkeyed : schema.isKeyed = true)
    {models : Entries String η}
    (hok : (compile binder settings (.map schema)).result = .ok models) :
    ∃ s : Stage η, (Stage.start (checkLog settings schema)).Performs ⟨settings, binder⟩
        (compileActs binder settings schema) s ∧
      (compile binder settings (.map schema)).result = .ok s.registry.models ∧
      (compile binder settings (.map schema)).tables = s.registry.descriptors ∧
      ∀ t ∈ (Tree.ofFields schema).tables, t.2.siteNames.Nodup := by
  have hends := compile_ends binder hset hkeyed (isValid_of_result_eq_ok binder hok)
  generalize compile binder settings (.map schema) = outcome at hends hok
  cases hends with
  | refused | collided => simp at hok
  | @finished s h hnames => exact ⟨s, h, rfl, rfl, hnames⟩

/-- **A walk succeeds** if all names can be read, no two sites of a table have the same name and the
binder takes every table. -/
theorem exists_walkSchema (hkeyed : schema.isKeyed = true)
    (hsound : ∀ n, schema.Walked n → n.Sound settings)
    (hnames : ∀ t ∈ (Tree.ofFields schema).tables, t.2.siteNames.Nodup)
    (htakes : ∀ before d, ∃ handle, binder.create before d = .ok handle) (log : List Event) :
    ∃ (v : Visit η) (s : Stage η),
      walkSchema binder settings schema log = (.ok v, s.registry) ∧
      (Stage.start log).Performs ⟨settings, binder⟩ (compileActs binder settings schema) s := by
  have hwalk := Walk.walks_visit (⟨settings, binder⟩ : Setting η ε) hkeyed hsound
    (Stage.start log) none none [] (by simp)
  unfold Walk.Walks at hwalk
  change Walk.Ends _ _ _ _ _ (walkSchema binder settings schema log) at hwalk
  generalize walkSchema binder settings schema log = out at hwalk ⊢
  cases hwalk with
  | finished h => exact ⟨_, _, rfl, h⟩
  | refused _ _ hrefuse =>
    obtain ⟨handle, hhandle⟩ := htakes _ _
    exact absurd (hhandle.symm.trans hrefuse) (by simp)
  | collided _ _ hclash =>
    rcases hclash with ⟨t, ht, hdup, -⟩ | ⟨hdup, -⟩
    · exact absurd (hnames t ht) (List.exists_duplicate_iff_not_nodup.mp ⟨_, hdup⟩)
    · rw [Walk.outline_relations_root] at hdup
      exact absurd hdup (by simp [Entries.keys])

/-- **A compilation gives a result** if it has found no override at fault, no two sites of a table
have the same name and the binder takes every table. -/
theorem exists_result (hset : settings.IsValid) (hkeyed : schema.isKeyed = true)
    (hvalid : (Override.checkAll settings schema).isValid = true)
    (hnames : ∀ t ∈ (Tree.ofFields schema).tables, t.2.siteNames.Nodup)
    (htakes : ∀ before d, ∃ handle, binder.create before d = .ok handle) :
    ∃ models, (compile binder settings (.map schema)).result = .ok models := by
  obtain ⟨v, s, hwalk, -⟩ := exists_walkSchema binder hkeyed
    (fun n hn => Override.sound_of_isValid hset hvalid hn) hnames htakes (checkLog settings schema)
  unfold checkLog at hwalk
  refine ⟨s.registry.models, ?_⟩
  simp only [compile, compileFields, refusal?_eq_none_iff.mpr hvalid, hwalk]

/-- **Every compilation performs the first of the acts** of the schema, and all of them if it
gives a result. What it has registered by then is what is left behind. -/
theorem exists_performs (hset : settings.IsValid) (hkeyed : schema.isKeyed = true) :
    let outcome := compile binder settings (.map schema)
    ∃ (done : List Act) (s : Stage η), done <+: compileActs binder settings schema ∧
      (Stage.start (checkLog settings schema)).Performs ⟨settings, binder⟩ done s ∧
        s.registry.descriptors = outcome.tables ∧
          ∀ models, outcome.result = .ok models → done = compileActs binder settings schema := by
  intro outcome
  cases hrefusal : (Override.checkAll settings schema).refusal? with
  | some e =>
    have houtcome : outcome = { result := .error (.schema e), log := checkLog settings schema } :=
      compile_of_errors binder settings schema hrefusal
    rw [houtcome]
    exact ⟨[], _, List.nil_prefix, .nil _, rfl, fun _ h => by simp at h⟩
  | none =>
    have hends : CompileEnds binder settings schema outcome :=
      compile_ends binder hset hkeyed (refusal?_eq_none_iff.mp hrefusal)
    clear_value outcome
    cases hends with
    | finished h => exact ⟨_, _, List.prefix_rfl, h, rfl, fun _ _ => rfl⟩
    | refused hacts h =>
      exact ⟨_, _, hacts ▸ List.prefix_append _ _, h, rfl, fun _ hok => by simp at hok⟩
    | collided hacts h =>
      exact ⟨_, _, hacts ▸ List.prefix_append _ _, h, rfl, fun _ hok => by simp at hok⟩

end NestedTables
