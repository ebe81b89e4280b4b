import NestedTables.Proofs.Compile.Handover

/-!
# The tables that a compilation hands over

A compilation asks the binder for one table after the other. `HandedOver` says everything that
there is to know of these hand-overs: they are those of the first tables of the schema, in the
order in which the tables are left, each with the tables before it registered; all tables have
been handed over when the compilation gives a result; and it stops at the first that is refused.

The hand-overs of a compilation are not recorded anywhere, since a binder is a function. That a
hand-over is made is seen from what happens if it is refused (`HandedOver.refusal`), and that no
other one is made from what happens if none of them is answered in another way
(`HandedOver.same`). Nothing is assumed of the settings or of the schema, and nothing of what the
binder answers (`compile_handovers`).
-/

namespace NestedTables

variable {η ε : Type} {binder : Binder η ε}

namespace Ledger

variable {l l' : Ledger η} {calls calls' : List (Handover η ε)}

theorem Takes.exists_of_append (h : l.Takes binder (calls ++ calls') l') :
    ∃ m, l.Takes binder calls m ∧ m.Takes binder calls' l' := by
  induction calls generalizing l with
  | nil => exact ⟨l, .nil l, h⟩
  | cons c calls ih =>
    cases h with
    | cons hbefore hanswer hok h =>
      obtain ⟨m, hm, hm'⟩ := ih h
      exact ⟨m, .cons hbefore hanswer hok hm, hm'⟩

theorem Takes.identities (h : l.Takes binder calls l') :
    l'.identities = l.identities ++ calls.map fun c => c.table.identity := by
  induction h with
  | nil => simp
  | cons _ _ _ _ ih => simp [ih, enter]

theorem Takes.taken (h : l.Takes binder calls l') : ∀ c ∈ calls, c.taken = true := by
  induction h with
  | nil => simp
  | cons _ _ hok _ ih => simpa [Handover.taken_of_ok hok] using ih

/-- One of those that are taken has been handed over with the earlier ones registered. -/
theorem Takes.before {done later : List (Handover η ε)} {c : Handover η ε}
    (h : l.Takes binder (done ++ c :: later) l') :
    binder.create c.before c.table = c.answer ∧
      c.before.map Descriptor.identity = l.identities ++ done.map fun d => d.table.identity := by
  obtain ⟨m, hdone, hlater⟩ := h.exists_of_append
  cases hlater with
  | cons hbefore hanswer _ _ => exact ⟨hanswer, by rw [hbefore, hdone.identities]⟩

/-- The model names are there in the order in which they came first. -/
theorem Takes.keys_models (h : l.Takes binder calls l') {earlier : List String}
    (hkeys : l.models.keys = earlier.eraseDups) :
    l'.models.keys = (earlier ++ calls.map fun c => c.table.modelName).eraseDups := by
  induction h generalizing earlier with
  | nil => simpa using hkeys
  | @cons l _ c _ handle _ _ _ _ ih =>
    have henter : (l.enter c.table.identity handle).models.keys =
        (earlier ++ [c.table.modelName]).eraseDups := by
      rw [Stage.eraseDups_append_singleton, enter, Entries.keys_put, hkeys]
      simp only [List.mem_eraseDups]
      rfl
    rw [ih henter, List.map_cons, List.append_assoc, List.singleton_append]

/-- A name under which no table comes keeps its handle. -/
theorem Takes.get?_models (h : l.Takes binder calls l') {name : String}
    (hname : ∀ c ∈ calls, c.table.modelName ≠ name) :
    l'.models.get? name = l.models.get? name := by
  induction h with
  | nil => rfl
  | @cons l _ c _ _ _ _ _ _ ih =>
    rw [ih fun d hd => hname d (List.mem_cons_of_mem _ hd), enter, Entries.get?_put]
    exact if_neg (hname c List.mem_cons_self)

/-- **The last table of a name** is the one whose handle stays. -/
theorem Takes.get?_models_last {done later : List (Handover η ε)} {c : Handover η ε}
    (h : l.Takes binder (done ++ c :: later) l') :
    ∃ handle, c.answer = .ok handle ∧
      ((∀ d ∈ later, d.table.modelName ≠ c.table.modelName) →
        l'.models.get? c.table.modelName = some handle) := by
  obtain ⟨m, -, hlater⟩ := h.exists_of_append
  cases hlater with
  | @cons _ _ _ _ handle _ _ hok hlater =>
    refine ⟨handle, hok, fun hname => ?_⟩
    rw [hlater.get?_models hname, enter, Entries.get?_put]
    exact if_pos rfl

end Ledger

/-- A place in a list that goes on with at most one more element. -/
theorem eq_append_cons_cases {α : Type} {as done later : List α} {o : Option α} {a : α}
    (h : as ++ o.toList = done ++ a :: later) :
    (∃ later', later = later' ++ o.toList ∧ as = done ++ a :: later') ∨
      (done = as ∧ o = some a ∧ later = []) := by
  cases o with
  | none => exact Or.inl ⟨later, by simp, by simpa using h⟩
  | some b =>
    rcases later.eq_nil_or_concat with rfl | ⟨later', b', rfl⟩
    · obtain ⟨rfl, hb⟩ := List.append_inj' h rfl
      exact Or.inr ⟨rfl, by simpa using hb, rfl⟩
    · rw [List.concat_eq_append, ← List.cons_append, ← List.append_assoc] at h
      obtain ⟨rfl, hb⟩ := List.append_inj' h rfl
      exact Or.inl ⟨later', by simpa using hb.symm, rfl⟩

/-- Hand-overs that lead from a ledger to a later one, with at most one behind them that is
refused. -/
structure Ledger.Made (binder : Binder η ε) (l : Ledger η) (taken : List (Handover η ε))
    (refused : Option (Handover η ε)) (l' : Ledger η) : Prop where
  takes : l.Takes binder taken l'
  refuses : ∀ c, refused = some c → c.before.map Descriptor.identity = l'.identities ∧
    binder.create c.before c.table = c.answer ∧ c.taken = false

namespace Ledger.Made

variable {l l' : Ledger η} {taken done later : List (Handover η ε)}
  {refused : Option (Handover η ε)} {c : Handover η ε}

/-- Each has been made with the earlier ones registered. -/
theorem before (h : l.Made binder taken refused l')
    (hcalls : taken ++ refused.toList = done ++ c :: later) :
    binder.create c.before c.table = c.answer ∧
      c.before.map Descriptor.identity = l.identities ++ done.map fun d => d.table.identity := by
  obtain ⟨later', -, rfl⟩ | ⟨rfl, hc, -⟩ := eq_append_cons_cases hcalls
  · exact h.takes.before
  · obtain ⟨hbefore, hanswer, -⟩ := h.refuses c hc
    exact ⟨hanswer, by rw [hbefore, h.takes.identities]⟩

theorem filter_taken (h : l.Made binder taken refused l') :
    (taken ++ refused.toList).filter Handover.taken = taken := by
  have hnil : refused.toList.filter Handover.taken = [] := by
    refine List.filter_eq_nil_iff.mpr fun c hc => ?_
    simp [(h.refuses c (Option.mem_toList.mp hc)).2.2]
  rw [List.filter_append, List.filter_eq_self.mpr h.takes.taken, hnil, List.append_nil]

/-- Nothing is handed over after a refusal. -/
theorem later_eq_nil (h : l.Made binder taken refused l')
    (hcalls : taken ++ refused.toList = done ++ c :: later) (hc : c.taken = false) :
    later = [] := by
  obtain ⟨later', -, rfl⟩ | ⟨-, -, hlater⟩ := eq_append_cons_cases hcalls
  · have htaken := h.takes.taken c (by simp)
    simp [hc] at htaken
  · exact hlater

/-- Only the last one may have been refused. -/
theorem exists_answer_iff (h : l.Made binder taken refused l') {reason : ε} :
    (∃ c ∈ taken ++ refused.toList, c.answer = .error reason) ↔
      ∃ c, refused = some c ∧ c.answer = .error reason := by
  constructor
  · rintro ⟨c, hc, hanswer⟩
    rcases List.mem_append.mp hc with hc | hc
    · have htaken := h.takes.taken c hc
      rw [Handover.taken_eq_false_iff.mpr ⟨reason, hanswer⟩] at htaken
      simp at htaken
    · exact ⟨c, Option.mem_toList.mp hc, hanswer⟩
  · rintro ⟨c, hc, hanswer⟩
    exact ⟨c, List.mem_append_right _ (Option.mem_toList.mpr hc), hanswer⟩

/-- If no answer was a refusal all have been taken. -/
theorem refused_eq_none (h : l.Made binder taken refused l')
    (hreason : ∀ reason c, refused = some c → c.answer ≠ .error reason) : refused = none := by
  refine Option.eq_none_iff_forall_ne_some.mpr fun c hc => ?_
  obtain ⟨reason, hanswer⟩ := Handover.taken_eq_false_iff.mp (h.refuses c hc).2.2
  exact hreason reason c hc hanswer

end Ledger.Made

/-- **The hand-overs of a compilation.** -/
structure HandedOver (binder : Binder η ε) (settings : Settings) (schema : Fields)
    (calls : List (Handover η ε)) : Prop where
  /-- They are those of the first tables, one for one, under the names of the nodes. -/
  first : ∃ first, first <+: (Tree.ofFields schema).tables ∧
    List.Forall₂ (Walk.Named settings) first calls
  /-- The binder is asked for each when those before it have been registered. -/
  before : ∀ done c later, calls = done ++ c :: later →
    binder.create c.before c.table = c.answer ∧
      c.before.map Descriptor.identity = done.map fun d => d.table.identity
  /-- If another binder refuses one of them, and has answered those before it in the same way, the
  compilation fails for the reason that it gives, and no table is registered any more. -/
  refusal : ∀ done c later, calls = done ++ c :: later → ∀ create reason,
    Handover.Answers create done → create c.before c.table = .error reason →
      let outcome := compile { binder with create := create } settings (.map schema)
      outcome.result = .error (.binder reason) ∧ outcome.tables = c.before
  /-- What a binder would answer to anything else makes no difference. -/
  same : ∀ create, Handover.Answers create calls →
    compile { binder with create := create } settings (.map schema) =
      compile binder settings (.map schema)
  /-- What has been taken is registered, and nothing else. -/
  tables : (compile binder settings (.map schema)).tables.map Descriptor.identity =
    (calls.filter Handover.taken).map fun c => c.table.identity
  /-- The binder's reason is that of the last hand-over, and after a refusal there is none. -/
  reason : ∀ reason, (compile binder settings (.map schema)).result = .error (.binder reason) ↔
    ∃ c ∈ calls, c.answer = .error reason
  last : ∀ done c later, calls = done ++ c :: later → c.taken = false → later = []
  /-- When there is a result all tables have been handed over, and it has the handle of the last
  table of each name, in the order in which the names came first. -/
  result : ∀ models, (compile binder settings (.map schema)).result = .ok models →
    List.Forall₂ (Walk.Named settings) (Tree.ofFields schema).tables calls ∧
      models.keys = (calls.map fun c => c.table.modelName).eraseDups ∧
        ∀ done c later, calls = done ++ c :: later → ∃ handle, c.answer = .ok handle ∧
          ((∀ d ∈ later, d.table.modelName ≠ c.table.modelName) →
            models.get? c.table.modelName = some handle)

variable {settings : Settings} {schema : Fields}

/-- A compilation that has found no override at fault is a walk. -/
theorem compile_of_refusal?_eq_none (binder : Binder η ε)
    (h : (Override.checkAll settings schema).refusal? = none) :
    compile binder settings (.map schema) =
      match walkSchema binder settings schema (checkLog settings schema) with
      | (.error e, r) => { result := .error e, tables := r.descriptors, log := r.log }
      | (.ok _, r) =>
        { result := .ok r.models
          tables := r.descriptors
          log := r.log ++ [.compiled r.drafts.length r.models.length] } := by
  simp only [compile, compileFields, h]
  rfl

/-- No hand-over is made before the walk. -/
theorem HandedOver.of_refusal {e : SchemaError}
    (h : (Override.checkAll settings schema).refusal? = some e) :
    HandedOver binder settings schema [] where
  first := ⟨[], List.nil_prefix, .nil⟩
  before _ _ _ h := by simp at h
  refusal _ _ _ h := by simp at h
  same create _ := by
    rw [compile_of_errors _ settings schema h, compile_of_errors _ settings schema h]
  tables := by
    rw [compile_of_errors _ settings schema h]
    rfl
  reason reason := by
    rw [compile_of_errors _ settings schema h]
    simp
  last _ _ _ h := by simp at h
  result _ hok := by
    rw [compile_of_errors _ settings schema h] at hok
    simp at hok

/-- The hand-overs of a walk are those that the binder takes, and at most one that it refuses. -/
theorem Walk.Tells.exists_made {α : Type} {setting : Walk.Setting η ε}
    {tables : List (Pointer × Tree)} {r : Registry η} {calls : List (Handover η ε)}
    {out : Except (Failure ε) α × Registry η} (h : Walk.Tells setting tables r calls out) :
    ∃ (taken : List (Handover η ε)) (refused : Option (Handover η ε)),
      calls = taken ++ refused.toList ∧ r.ledger.Made setting.binder taken refused out.2.ledger ∧
        ∀ reason, out.1 = .error (.binder reason) ↔
          ∃ c, refused = some c ∧ c.answer = .error reason := by
  cases h with
  | finished htakes =>
    exact ⟨_, none, (List.append_nil _).symm, ⟨htakes, by simp⟩, by simp⟩
  | @refused _ _ _ _ c r' reason _ htakes _ _ hbefore hanswer hrefuse =>
    refine ⟨_, some c, rfl, ⟨htakes, ?_⟩, fun reason' => ?_⟩
    · rintro _ ⟨⟩
      exact ⟨hbefore ▸ r'.map_identity_descriptors, hanswer,
        Handover.taken_eq_false_iff.mpr ⟨reason, hrefuse⟩⟩
    · simp [hrefuse]
  | stopped _ htakes _ hown =>
    exact ⟨_, none, (List.append_nil _).symm, ⟨htakes, by simp⟩, by simp [hown]⟩

/-- The tables that a walk hands over are the first of those that it sets out to hand over. -/
theorem Walk.Tells.exists_first {α : Type} {setting : Walk.Setting η ε}
    {tables : List (Pointer × Tree)} {r : Registry η} {calls : List (Handover η ε)}
    {out : Except (Failure ε) α × Registry η} (h : Walk.Tells setting tables r calls out) :
    ∃ first, first <+: tables ∧ List.Forall₂ (Walk.Named setting.settings) first calls ∧
      ∀ a, out.1 = .ok a → first = tables := by
  cases h with
  | finished _ hnames => exact ⟨tables, List.prefix_rfl, hnames, fun _ _ => rfl⟩
  | @refused _ first rest t _ _ _ htables _ hnames hlast =>
    refine ⟨first ++ [t], ⟨rest, by simp [htables]⟩, List.rel_append hnames (.cons hlast .nil), ?_⟩
    intro _ h
    cases h
  | @stopped _ first rest _ _ htables _ hnames =>
    refine ⟨first, ⟨rest, htables.symm⟩, hnames, ?_⟩
    intro _ h
    cases h

/-- The hand-overs of a compilation are those of its walk. -/
theorem HandedOver.of_makes {calls : List (Handover η ε)}
    (hnone : (Override.checkAll settings schema).refusal? = none)
    (h : Walk.Makes (⟨settings, binder⟩ : Walk.Setting η ε) (Tree.ofFields schema).tables
      (fun s => Walk.visit s none none [] (Tree.ofFields schema))
      { log := checkLog settings schema } calls) :
    HandedOver binder settings schema calls := by
  obtain ⟨first, hfirst, hnames, hall⟩ := h.tells.exists_first
  obtain ⟨taken, refused, rfl, hmade, hreason⟩ := h.tells.exists_made
  -- the run of the walk is all that is seen of it
  rcases hwalk : walkSchema binder settings schema (checkLog settings schema) with ⟨result, r⟩
  have hrun : (Walk.visit (⟨settings, binder⟩ : Walk.Setting η ε) none none []
      (Tree.ofFields schema)).run.run { log := checkLog settings schema } = (result, r) := hwalk
  rw [hrun] at hmade hreason hall
  have hcompile := compile_of_refusal?_eq_none binder hnone
  rw [hwalk] at hcompile
  refine ⟨⟨first, hfirst, hnames⟩, fun _ _ _ hcalls => hmade.before hcalls, ?_, ?_, ?_, ?_,
    fun _ _ _ hcalls => hmade.later_eq_nil hcalls, ?_⟩
  · intro done c later hcalls create reason hanswers hrefuse
    obtain ⟨r', hbefore, hrun'⟩ := h.refusal done c later hcalls create reason hanswers hrefuse
    have hwalk' : walkSchema { binder with create := create } settings schema
        (checkLog settings schema) = (.error (.binder reason), r') := hrun'
    rw [compile_of_refusal?_eq_none _ hnone, hwalk']
    exact ⟨rfl, hbefore⟩
  · intro create hanswers
    have hwalk' : walkSchema { binder with create := create } settings schema
        (checkLog settings schema) = (result, r) := (h.same create hanswers).trans hrun
    rw [compile_of_refusal?_eq_none _ hnone, hwalk', hcompile]
  · have htables : (compile binder settings (.map schema)).tables = r.descriptors := by
      rw [hcompile]
      cases result <;> rfl
    rw [htables, Registry.map_identity_descriptors, hmade.takes.identities, hmade.filter_taken]
    rfl
  · intro reason
    have hresult : (compile binder settings (.map schema)).result = .error (.binder reason) ↔
        result = .error (.binder reason) := by
      rw [hcompile]
      cases result <;> simp
    rw [hresult, hreason, hmade.exists_answer_iff]
  · intro models hok
    rw [hcompile] at hok
    cases result with
    | error e => simp at hok
    | ok v =>
      obtain rfl : r.models = models := by simpa using hok
      obtain rfl := hall v rfl
      obtain rfl := hmade.refused_eq_none fun reason c hc hanswer =>
        absurd ((hreason reason).mpr ⟨c, hc, hanswer⟩) (by simp)
      rw [Option.toList_none, List.append_nil] at hnames ⊢
      refine ⟨hnames, hmade.takes.keys_models List.eraseDups_nil.symm, ?_⟩
      rintro done c later rfl
      exact hmade.takes.get?_models_last

/-- **Every compilation hands its tables over one after the other**, whatever the binder answers. -/
theorem compile_handovers (binder : Binder η ε) (settings : Settings) (schema : Fields) :
    ∃ calls : List (Handover η ε), HandedOver binder settings schema calls := by
  cases hrefusal : (Override.checkAll settings schema).refusal? with
  | some e => exact ⟨[], .of_refusal hrefusal⟩
  | none =>
    obtain ⟨calls, h⟩ := Walk.hands_visit (⟨settings, binder⟩ : Walk.Setting η ε) none none []
      (Tree.ofFields schema) { log := checkLog settings schema }
    exact ⟨calls, .of_makes hrefusal h⟩

end NestedTables
