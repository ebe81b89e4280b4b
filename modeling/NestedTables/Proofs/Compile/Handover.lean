import NestedTables.Proofs.Compile.Compilation
import NestedTables.Proofs.Compile.Descriptors

/-!
# Tables that are handed to the binder

A *hand-over* is a table that the binder is asked to take, with the tables that have been
registered by then and with the answer. Here the hand-overs of a walk are followed through the
program itself. Which tables are handed over, and in which order, does not depend on what
becomes of the relations: a visit hands over the tables at and below its node, each after those
inside it, until one is refused or the walk stops for a reason of its own (`Walk.hands_visit`).

`Walk.Hands` is a triple with the tables in the place of the precondition. It speaks of a program
that is given its binder, since it says three things at once (`Walk.Makes`): how the walk ends;
that it ends in the same way with any binder that answers its hand-overs in the same way, so that
no other answer has been looked at; and that it ends at any one of them if another binder refuses
that one, so that each of them is really made.
-/

namespace NestedTables

variable {η ε α β : Type}

/-! ### Hand-overs -/

/-- A table that the binder is asked to take. -/
structure Handover (η ε : Type) where
  /-- The tables that have been registered by then, as they are at that time. -/
  before : List (Descriptor η)
  table : Descriptor η
  answer : Except ε η

/-- Whether the binder takes the table. -/
def Handover.taken (c : Handover η ε) : Bool :=
  c.answer.toBool

theorem Handover.taken_of_ok {c : Handover η ε} {handle : η} (h : c.answer = .ok handle) :
    c.taken = true := by
  rw [taken, h]
  rfl

theorem Handover.taken_eq_false_iff {c : Handover η ε} :
    c.taken = false ↔ ∃ reason, c.answer = .error reason := by
  unfold taken
  cases c.answer <;> simp [Except.toBool]

/-- Whether hand-overs would be answered in the same way. -/
def Handover.Answers (create : List (Descriptor η) → Descriptor η → Except ε η)
    (calls : List (Handover η ε)) : Prop :=
  ∀ c ∈ calls, create c.before c.table = c.answer

/-- The names of a table that is to be registered. -/
def Draft.identity (d : Draft η) : Walk.Identity :=
  ⟨d.modelName, d.tableName, d.idColumn⟩

/-- The names of a table. -/
def Descriptor.identity (d : Descriptor η) : Walk.Identity :=
  ⟨d.modelName, d.tableName, d.idColumn⟩

@[simp] theorem Draft.identity_withColumns (d : Draft η) (columns : List String)
    (schema : Fields) : (d.withColumns columns schema).identity = d.identity := by
  simp [identity]

@[simp] theorem Draft.identity_describe (d : Draft η) (schema : Fields) :
    (d.describe schema).identity = d.identity := rfl

/-- What has been registered: the names of the tables in their order, and the handles by model
name. -/
structure Ledger (η : Type) where
  identities : List Walk.Identity
  models : Entries String η

/-- A ledger with one more table. -/
def Ledger.enter (l : Ledger η) (i : Walk.Identity) (handle : η) : Ledger η where
  identities := l.identities ++ [i]
  models := l.models.put i.modelName handle

namespace Registry

/-- What has been registered. -/
def ledger (r : Registry η) : Ledger η :=
  ⟨r.drafts.map Draft.identity, r.models⟩

@[simp] theorem ledger_noteAll (r : Registry η) (es : List Event) :
    (r.noteAll es).ledger = r.ledger := rfl

@[simp] theorem ledger_register (r : Registry η) (d : Draft η) (handle : η) (at_ : Pointer)
    (relations : Nat) :
    (r.register d handle at_ relations).ledger = r.ledger.enter d.identity handle := by
  simp [ledger, register, Ledger.enter, Draft.identity]

/-- A column that is asked for changes no names. -/
@[simp] theorem ledger_request (r : Registry η) (table column : String) (schema : Fields) :
    (r.request table column schema).ledger = r.ledger := by
  have hsame : ∀ d : Draft η, Draft.identity
      (if d.tableName = table then d.withColumn column schema else d) = d.identity := by
    intro d
    split <;> rfl
  simp [ledger, request, Function.comp_def, hsame]

/-- The names of the descriptors are those of the registered tables. -/
theorem map_identity_descriptors (r : Registry η) :
    r.descriptors.map Descriptor.identity = r.ledger.identities := by
  refine (List.forall₂_eq_eq_eq ▸ List.forall₂_map_right_iff.mpr
    (List.forall₂_map_left_iff.mpr (r.forall₂_descriptors.imp ?_)) : _ = _).symm
  rintro d _ ⟨schema, rfl⟩
  rfl

end Registry

/-- Hand-overs that the binder takes one after the other lead from a ledger to a later one. -/
inductive Ledger.Takes (binder : Binder η ε) :
    Ledger η → List (Handover η ε) → Ledger η → Prop
  | nil (l : Ledger η) : Takes binder l [] l
  | cons {l l' : Ledger η} {c : Handover η ε} {later : List (Handover η ε)} {handle : η}
      (hbefore : c.before.map Descriptor.identity = l.identities)
      (hanswer : binder.create c.before c.table = c.answer) (hok : c.answer = .ok handle)
      (h : Takes binder (l.enter c.table.identity handle) later l') : Takes binder l (c :: later) l'

theorem Ledger.Takes.trans {binder : Binder η ε} {l l₁ l₂ : Ledger η}
    {calls calls' : List (Handover η ε)} (h : Takes binder l calls l₁)
    (h' : Takes binder l₁ calls' l₂) : Takes binder l (calls ++ calls') l₂ := by
  induction h with
  | nil => exact h'
  | cons hbefore hanswer hok _ ih => exact .cons hbefore hanswer hok (ih h')

namespace Walk

/-- The setting with another binder that uses the same words. -/
def Setting.answering (setting : Setting η ε)
    (create : List (Descriptor η) → Descriptor η → Except ε η) : Setting η ε :=
  { setting with binder := { setting.binder with create := create } }

/-- Whether a hand-over is that of a node, by the names that are read there. -/
def Named (settings : Settings) (t : Pointer × Tree) (c : Handover η ε) : Prop :=
  t.2.fields.isTable = true ∧ identity settings t.2.fields = .ok c.table.identity

/-- The ways in which a walk ends that sets out to hand over some tables. -/
inductive Tells (setting : Setting η ε) (tables : List (Pointer × Tree)) (r : Registry η) :
    List (Handover η ε) → Except (Failure ε) α × Registry η → Prop
  | finished {calls : List (Handover η ε)} {a : α} {r' : Registry η}
      (h : r.ledger.Takes setting.binder calls r'.ledger)
      (hnames : List.Forall₂ (Named setting.settings) tables calls) :
      Tells setting tables r calls (.ok a, r')
  | refused {calls : List (Handover η ε)} {first rest : List (Pointer × Tree)}
      {t : Pointer × Tree} {c : Handover η ε} {r' : Registry η} {reason : ε}
      (htables : tables = first ++ t :: rest)
      (h : r.ledger.Takes setting.binder calls r'.ledger)
      (hnames : List.Forall₂ (Named setting.settings) first calls)
      (hlast : Named setting.settings t c) (hbefore : c.before = r'.descriptors)
      (hanswer : setting.binder.create c.before c.table = c.answer)
      (hrefuse : c.answer = .error reason) :
      Tells setting tables r (calls ++ [c]) (.error (.binder reason), r')
  | stopped {calls : List (Handover η ε)} {first rest : List (Pointer × Tree)}
      {r' : Registry η} {e : Failure ε} (htables : tables = first ++ rest)
      (h : r.ledger.Takes setting.binder calls r'.ledger)
      (hnames : List.Forall₂ (Named setting.settings) first calls)
      (hown : ∀ reason, e ≠ .binder reason) :
      Tells setting tables r calls (.error e, r')

/-- What the hand-overs of a walk tell of it. -/
structure Makes (setting : Setting η ε) (tables : List (Pointer × Tree))
    (m : Setting η ε → Walk η ε α) (r : Registry η) (calls : List (Handover η ε)) : Prop where
  tells : Tells setting tables r calls ((m setting).run.run r)
  /-- A binder that answers them in the same way makes no difference. -/
  same : ∀ create, Handover.Answers create calls →
    (m (setting.answering create)).run.run r = (m setting).run.run r
  /-- A binder that does so up to one of them and refuses that one stops the walk there. -/
  refusal : ∀ done c later, calls = done ++ c :: later → ∀ create reason,
    Handover.Answers create done → create c.before c.table = .error reason →
      ∃ r' : Registry η, r'.descriptors = c.before ∧
        (m (setting.answering create)).run.run r = (.error (.binder reason), r')

/-- A walk sets out to hand over some tables, and makes some hand-overs. -/
def Hands (setting : Setting η ε) (tables : List (Pointer × Tree))
    (m : Setting η ε → Walk η ε α) : Prop :=
  ∀ r : Registry η, ∃ calls : List (Handover η ε), Makes setting tables m r calls

variable {setting : Setting η ε} {tables tables' : List (Pointer × Tree)}

/-- What stops a walk stops what comes after it. -/
theorem Makes.bind_of_error {m : Setting η ε → Walk η ε α} {f : Setting η ε → α → Walk η ε β}
    {r r' : Registry η} {calls : List (Handover η ε)} {e : Failure ε}
    (h : Makes setting tables m r calls) (hrun : (m setting).run.run r = (.error e, r')) :
    Makes setting (tables ++ tables') (fun s => m s >>= f s) r calls where
  tells := by
    have htells := h.tells
    rw [run_bind]
    generalize (m setting).run.run r = out at htells hrun
    cases htells with
    | finished => cases hrun
    | refused htables htakes hnames hlast hbefore hanswer hrefuse =>
      exact .refused (by rw [htables, List.append_assoc, List.cons_append]) htakes hnames hlast
        hbefore hanswer hrefuse
    | stopped htables htakes hnames hown =>
      exact .stopped (by rw [htables, List.append_assoc]) htakes hnames hown
  same create hcreate := by rw [run_bind, run_bind, h.same create hcreate, hrun]
  refusal done c later heq create reason hcreate hrefuse := by
    obtain ⟨r'', hbefore, hrun'⟩ := h.refusal done c later heq create reason hcreate hrefuse
    exact ⟨r'', hbefore, by rw [run_bind, hrun']⟩

/-- What comes after a walk that finishes goes on from there. -/
theorem Makes.bind_of_ok {m : Setting η ε → Walk η ε α} {f : Setting η ε → α → Walk η ε β}
    {r r₁ : Registry η} {calls calls' : List (Handover η ε)} {a : α}
    (h : Makes setting tables m r calls) (hrun : (m setting).run.run r = (.ok a, r₁))
    (h' : Makes setting tables' (fun s => f s a) r₁ calls') :
    Makes setting (tables ++ tables') (fun s => m s >>= f s) r (calls ++ calls') where
  tells := by
    have htells := h.tells
    have htells' := h'.tells
    rw [run_bind, hrun]
    simp only
    rw [hrun] at htells
    generalize (f setting a).run.run r₁ = out at htells'
    cases htells with
    | finished htakes hnames =>
      cases htells' with
      | finished htakes' hnames' =>
        exact .finished (htakes.trans htakes') (List.rel_append hnames hnames')
      | refused htables htakes' hnames' hlast hbefore hanswer hrefuse =>
        rw [← List.append_assoc]
        exact .refused (by rw [htables, List.append_assoc]) (htakes.trans htakes')
          (List.rel_append hnames hnames') hlast hbefore hanswer hrefuse
      | stopped htables htakes' hnames' hown =>
        exact .stopped (by rw [htables, List.append_assoc]) (htakes.trans htakes')
          (List.rel_append hnames hnames') hown
  same create hcreate := by
    rw [run_bind, run_bind, h.same create fun c hc => hcreate c (List.mem_append_left _ hc), hrun]
    exact h'.same create fun c hc => hcreate c (List.mem_append_right _ hc)
  refusal := by
    intro done c later heq create reason hcreate hrefuse
    have hsecond : ∀ done', done = calls ++ done' → calls' = done' ++ c :: later →
        ∃ r' : Registry η, r'.descriptors = c.before ∧
          (m (setting.answering create) >>= f (setting.answering create)).run.run r =
            (.error (.binder reason), r') := by
      rintro done' rfl hlater
      rw [run_bind, h.same create fun c hc => hcreate c (List.mem_append_left _ hc), hrun]
      exact h'.refusal done' c later hlater create reason
        (fun c hc => hcreate c (List.mem_append_right _ hc)) hrefuse
    -- the one that is refused is of the first walk or of the second
    obtain ⟨done', hdone, hlater⟩ | ⟨middle, hcalls, hlater⟩ := List.append_eq_append_iff.mp heq
    · exact hsecond done' hdone hlater
    · cases middle with
      | nil => exact hsecond [] (by simpa using hcalls.symm) hlater.symm
      | cons c' middle =>
        rw [List.cons_append, List.cons.injEq] at hlater
        obtain ⟨rfl, -⟩ := hlater
        obtain ⟨r', hbefore, hrun'⟩ := h.refusal _ _ _ hcalls create reason hcreate hrefuse
        exact ⟨r', hbefore, by rw [run_bind, hrun']⟩

/-- **A walk after a walk** hands over the tables of both. -/
theorem Hands.bind {m : Setting η ε → Walk η ε α} {f : Setting η ε → α → Walk η ε β}
    (hm : Hands setting tables m) (hf : ∀ a, Hands setting tables' fun s => f s a) :
    Hands setting (tables ++ tables') fun s => m s >>= f s := by
  intro r
  obtain ⟨calls, h⟩ := hm r
  rcases hrun : (m setting).run.run r with ⟨e | a, r₁⟩
  · exact ⟨calls, h.bind_of_error hrun⟩
  · obtain ⟨calls', h'⟩ := hf a r₁
    exact ⟨calls ++ calls', h.bind_of_ok hrun h'⟩

/-- Only what a walk does with the settings and the words of the binder counts. -/
theorem Hands.congr {m m' : Setting η ε → Walk η ε α} (h : Hands setting tables m')
    (heq : ∀ create, m (setting.answering create) = m' (setting.answering create)) :
    Hands setting tables m := by
  have hsetting : m setting = m' setting := heq setting.binder.create
  intro r
  obtain ⟨calls, h⟩ := h r
  refine ⟨calls, ⟨hsetting ▸ h.tells, fun create hcreate => ?_, ?_⟩⟩
  · rw [heq, hsetting, h.same create hcreate]
  · intro done c later hcalls create reason hcreate hrefuse
    rw [heq]
    exact h.refusal _ _ _ hcalls create reason hcreate hrefuse

/-- A walk after one that hands over nothing. -/
theorem Hands.andThen {m : Setting η ε → Walk η ε α} {f : Setting η ε → α → Walk η ε β}
    (hm : Hands setting [] m) (hf : ∀ a, Hands setting tables fun s => f s a) :
    Hands setting tables fun s => m s >>= f s :=
  hm.bind hf

/-- A walk that does not ask the binder. -/
theorem Makes.of_same {m : Setting η ε → Walk η ε α} {r : Registry η}
    (htells : Tells setting tables r [] ((m setting).run.run r))
    (hsame : ∀ create, m (setting.answering create) = m setting) :
    Makes setting tables m r [] where
  tells := htells
  same create _ := by rw [hsame create]
  refusal _ _ _ heq := by simp at heq

/-- A walk that registers nothing and does not ask the binder hands over nothing. -/
theorem Hands.quiet {m : Setting η ε → Walk η ε α}
    (hsame : ∀ create, m (setting.answering create) = m setting)
    (hledger : ∀ r, ((m setting).run.run r).2.ledger = r.ledger)
    (hown : ∀ r reason, ((m setting).run.run r).1 ≠ .error (.binder reason)) :
    Hands setting [] m := by
  intro r
  refine ⟨[], .of_same ?_ hsame⟩
  have hledger := hledger r
  have hown := hown r
  generalize (m setting).run.run r = out at hledger hown
  obtain ⟨_ | a, r'⟩ := out
  · refine .stopped (List.nil_append []).symm (hledger ▸ .nil _) .nil fun reason heq => ?_
    exact hown reason (congrArg Except.error heq)
  · exact .finished (hledger ▸ .nil _) .nil

theorem Hands.pure (a : α) : Hands setting [] fun _ => (Pure.pure a : Walk η ε α) :=
  .quiet (fun _ => rfl) (fun _ => rfl) fun _ _ h => by cases h

/-- A failure of the walk's own leaves the tables to the side. -/
theorem Hands.failure (e : Failure ε) (hown : ∀ reason, e ≠ .binder reason) :
    Hands setting tables fun _ => (throw e : Walk η ε α) :=
  fun _ => ⟨[], .of_same (.stopped (List.nil_append _).symm (.nil _) .nil hown) fun _ => rfl⟩

/-- What can be read is used, and what cannot be read stops the walk. -/
theorem Hands.described (reading : Settings → Reading α) {f : Setting η ε → α → Walk η ε β}
    (hf : ∀ a, reading setting.settings = .ok a → Hands setting tables fun s => f s a) :
    Hands setting tables fun s => described (reading s.settings) >>= f s := by
  cases hread : reading setting.settings with
  | ok a =>
    refine .congr (hf a hread) fun create => ?_
    change Walk.described (reading setting.settings) >>= _ = _
    rw [hread]
    rfl
  | error ps =>
    refine .congr (.failure (.record ps) fun _ h => by cases h) fun create => ?_
    change Walk.described (reading setting.settings) >>= _ = _
    rw [hread]
    rfl

theorem Hands.accepted (result : Setting η ε → Except SchemaError α)
    (hsame : ∀ create, result (setting.answering create) = result setting) :
    Hands setting [] fun s => accepted (result s) := by
  refine .quiet (fun create => by rw [hsame create]) (fun r => ?_) fun r reason h => ?_
  · cases result setting <;> rfl
  · cases hresult : result setting <;> rw [hresult] at h <;> cases h

theorem Hands.noteAll (es : List Event) :
    Hands setting [] fun _ => (noteAll es : Walk η ε Unit) :=
  .quiet (fun _ => rfl) (fun _ => rfl) fun _ _ h => by cases h

theorem Hands.requestFor (target : Target η) (join : Join) :
    Hands setting [] fun s => modify (requestFor s.settings target join) := by
  refine .quiet (fun _ => rfl) (fun r => ?_) fun _ _ h => by cases h
  change (Walk.requestFor setting.settings target join r).ledger = r.ledger
  cases join with
  | column | through => rfl
  | foreignKey column => exact r.ledger_request _ _ _

/-- **A table is handed over**, and registered if the binder takes it. -/
theorem Hands.create {t : Pointer × Tree} {i : Identity} (htable : t.2.fields.isTable = true)
    (hidentity : identity setting.settings t.2.fields = .ok i)
    (draft : Setting η ε → Registry η → Draft η) (next : Registry η → η → α) (at_ : Pointer)
    (relations : Nat) (hsame : ∀ create, draft (setting.answering create) = draft setting)
    (hdraft : ∀ r, (draft setting r).identity = i) :
    Hands setting [t] fun s => do
      let before ← get
      match s.binder.create before.descriptors (before.describe (draft s before)) with
      | .error reason => throw (.binder reason)
      | .ok handle =>
        modify (·.register (draft s before) handle at_ relations)
        return next before handle := by
  intro r
  let call : Handover η ε := ⟨r.descriptors, r.describe (draft setting r),
    setting.binder.create r.descriptors (r.describe (draft setting r))⟩
  have hcall : call.table.identity = i := hdraft r
  have hnamed : Named setting.settings t call := ⟨htable, by rw [hcall, hidentity]⟩
  have hcreate : ∀ create, (setting.answering create).binder.create = create := fun _ => rfl
  refine ⟨[call], ⟨?_, fun create hanswers => ?_, ?_⟩⟩
  · simp only [run_get_bind]
    cases hanswer : setting.binder.create r.descriptors (r.describe (draft setting r)) with
    | error reason =>
      exact .refused (List.nil_append _).symm (.nil _) .nil hnamed rfl rfl hanswer
    | ok handle =>
      have htakes : r.ledger.Takes setting.binder [call]
          (r.register (draft setting r) handle at_ relations).ledger := by
        refine .cons (r.map_identity_descriptors) rfl hanswer ?_
        rw [Registry.ledger_register, hcall, hdraft]
        exact .nil _
      exact .finished htakes (.cons hnamed .nil)
  · have hanswer : create r.descriptors (r.describe (draft setting r)) =
        setting.binder.create r.descriptors (r.describe (draft setting r)) :=
      hanswers call (List.mem_singleton.mpr rfl)
    simp only [run_get_bind, hsame, hcreate, hanswer]
  · intro done c later heq create reason _ hrefuse
    obtain ⟨rfl, hc, -⟩ : done = [] ∧ call = c ∧ later = [] := by
      cases done <;> simp_all
    subst hc
    have hanswer : create r.descriptors (r.describe (draft setting r)) = .error reason := hrefuse
    refine ⟨r, rfl, ?_⟩
    simp only [run_get_bind, hsame, hcreate, hanswer]
    rfl

/-! ### The parts of a visit -/

variable {node : Fields} {ctx : Option Context} {step : Option Step} {at_ : Pointer}

theorem Hands.emit {t : Pointer × Tree} (htable : t.2.fields.isTable = true) (at_ : Pointer)
    (rewritten : Entries Scalar Fragment) (relations : Entries Scalar (Relation η)) :
    Hands setting [t] fun s => emit s at_ t.2.fields rewritten relations :=
  .described (fun settings => identity settings t.2.fields) fun _ hidentity =>
    .described (fun _ => relationNames relations) fun named _ =>
      .create htable hidentity
        (fun s r => (draftOf s _ rewritten named).withColumns (r.columnsOf _)
          s.settings.foreignKey) _ at_ relations.length (fun _ => rfl) fun _ => by
            simp [draftOf, Draft.identity]

/-- The relations of a node are rebuilt without the binder's answers. -/
theorem rebuild_answering (setting : Setting η ε)
    (create : List (Descriptor η) → Descriptor η → Except ε η) (ctx : Option Context)
    (at_ : Pointer) (results : Entries Step (Visit η)) (properties : Fields)
    (columns : Entries Scalar Fragment) (relations : Entries Scalar (Relation η)) :
    rebuild (setting.answering create) ctx at_ results properties columns relations =
      rebuild setting ctx at_ results properties columns relations := by
  induction properties generalizing columns relations with
  | nil => rfl
  | cons property properties ih =>
    obtain ⟨name, value⟩ := property
    simp only [rebuild, ih]
    rfl

theorem Hands.finishArray (target : Target η) (schema : Fragment)
    (relations : Entries Scalar (Relation η)) :
    Hands setting [] fun s => finishArray s ctx step at_ node target schema relations := by
  unfold Walk.finishArray
  have hfree : Hands setting [] fun _ => (do
      Walk.noteAll [.notAttached at_ target.tableName]
      return { schema := schema, relations := relations } : Walk η ε (Visit η)) :=
    (Hands.noteAll _).andThen fun _ => .pure _
  rcases step with _ | ⟨name⟩ | _ <;> rcases ctx with _ | ctx <;> try exact hfree
  exact .described (fun settings => joinOf settings ctx node) fun join _ =>
    (Hands.requestFor target join).andThen fun _ =>
      (Hands.accepted (fun s => attach relations name (toMany s ctx target join) at_)
        fun _ => rfl).andThen fun _ => .pure _

/-- When the relations of a node have been put together, it is handed over if it is a table. -/
theorem Hands.conclude (t : Pointer × Tree) (ctx : Option Context) (step : Option Step)
    (at_ : Pointer) (target : Option (Target η)) (kept : Entries Scalar Fragment)
    (relations : Entries Scalar (Relation η)) :
    Hands setting (if t.2.fields.isTable then [t] else []) fun s =>
      if t.2.fields.isTable then Walk.emit s at_ t.2.fields kept relations
      else match t.2.fields.kind, target with
        | .arrayOfTable, some target =>
          Walk.finishArray s ctx step at_ t.2.fields target (.map kept) relations
        | _, _ => return { schema := .map kept, relations := relations } := by
  split
  · next htable => exact .emit htable _ _ _
  · split
    · exact .finishArray _ _ _
    · exact .pure _

/-- The end of a visit hands over the node if it is a table. -/
theorem Hands.finish (t : Pointer × Tree) (ctx : Option Context) (step : Option Step)
    (at_ : Pointer) (results : Entries Step (Visit η))
    (relations : Entries Scalar (Relation η)) :
    Hands setting (if t.2.fields.isTable then [t] else []) fun s =>
      finish s ctx step at_ t.2.fields results relations := by
  unfold Walk.finish
  have hend := @Hands.conclude η ε setting t ctx step at_
  let kept := withoutOverrides setting.settings t.2.fields
  -- whatever the node was rewritten to, it is then concluded
  cases t.2.fields.mapping? "properties" with
  | none =>
    cases results.get? .items with
    | none => exact .congr (hend none kept relations) fun _ => rfl
    | some result =>
      exact .congr (hend result.table (kept.put (.text "items") result.schema) relations)
        fun _ => rfl
  | some properties =>
    have hrebuild := Hands.accepted
      (fun s => rebuild s ctx at_ results properties [] relations)
      fun create => rebuild_answering setting create ctx at_ results properties [] relations
    cases results.get? .items with
    | none =>
      have hrest := fun r : Entries Scalar Fragment × Entries Scalar (Relation η) =>
        hend none (kept.put propertiesKey (.map r.1)) r.2
      exact .congr (hrebuild.andThen hrest) fun _ => bind_congr fun _ => rfl
    | some result =>
      have hrest := fun r : Entries Scalar Fragment × Entries Scalar (Relation η) =>
        hend result.table ((kept.put propertiesKey (.map r.1)).put (.text "items") result.schema) r.2
      exact .congr (hrebuild.andThen hrest) fun _ => bind_congr fun _ => rfl

mutual

/-- **A visit hands over the tables at and below a node**, each after those inside it. -/
theorem hands_visit (setting : Setting η ε) (above : Option Context) (step : Option Step)
    (at_ : Pointer) : ∀ tree : Tree,
    Hands setting (Tree.tablesFrom at_ tree) fun s => visit s above step at_ tree
  | .node node children => by
    rw [Tree.tablesFrom]
    unfold visit
    refine (Hands.noteAll _).andThen fun _ =>
      .described (fun settings => contextOf settings above step node) fun ctx _ => ?_
    have hchildren := (hands_visitAll setting ctx at_ children []).bind fun r =>
      .finish (at_, .node node children) ctx step at_ r.1 r.2
    cases hbad : badKey? node with
    | none => exact hchildren
    | some key => exact .congr (.failure (.keyNotText key) fun _ h => by cases h) fun _ => rfl

/-- The children of a node are visited one after the other. -/
theorem hands_visitAll (setting : Setting η ε) (ctx : Option Context) (at_ : Pointer) :
    ∀ (children : List (Step × Tree)) (relations : Entries Scalar (Relation η)),
    Hands setting (Tree.tablesBelow at_ children) fun s => visitAll s ctx at_ children relations
  | [], relations => .pure _
  | (step, tree) :: rest, relations => by
    rw [Tree.tablesBelow]
    have hrest : ∀ (v : Visit η) (acc : Entries Scalar (Relation η)),
        Hands setting (Tree.tablesBelow at_ rest) fun s =>
          visitAll s ctx at_ rest acc >>= fun r => pure ((step, v) :: r.1, r.2) := by
      intro v acc
      have hall := (hands_visitAll setting ctx at_ rest acc).bind fun r =>
        .pure ((step, v) :: r.1, r.2)
      rwa [List.append_nil] at hall
    have hmerge : ∀ v : Visit η, Hands setting [] fun _ =>
        Walk.accepted (ε := ε) (merge relations (upOf v) (at_ ++ step.path)) :=
      fun v => .accepted (fun _ => merge relations (upOf v) (at_ ++ step.path)) fun _ => rfl
    exact .congr
      ((hands_visit setting ctx (some step) (at_ ++ step.path) tree).bind fun v =>
        (hmerge v).andThen (hrest v))
      fun create => visitAll_cons (setting.answering create) ctx at_ step tree rest relations

end

end Walk

end NestedTables
