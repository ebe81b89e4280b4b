import NestedTables.Proofs.Document.Exact
import NestedTables.Record.Reading

/-!
# The states of a record

A record is read from a document once, and from then on it is changed one attribute at a time,
its own or one of a record inside it. A change that is refused leaves it as it is. At any time it
can be written as a document, and read again from there.

What has to be known of one kind of record is said about one reading, one change and one document
(`Record.Sound`). What holds after any number of changes follows for every kind of record alike
(`Record.Sound.lasts`), by induction on the changes.
-/

namespace NestedTables

/-- A kind of record: how it is read, changed and written. The type of its attributes is `κ`. -/
structure Record (κ σ : Type) where
  ofValue : Value → Reading σ
  set : σ → κ → Value → Reading σ
  dump : σ → Value

namespace Record

variable {κ σ : Type}

/-- The state after an attribute has been given a value, or refused it. -/
def assign (R : Record κ σ) (s : σ) (change : κ × Value) : σ :=
  match R.set s change.1 change.2 with
  | .ok t => t
  | .error _ => s

/-- The state after some changes. -/
def after (R : Record κ σ) (s : σ) (changes : List (κ × Value)) : σ :=
  changes.foldl R.assign s

/-- A record whose states are always valid. Those that are read from strict documents, and changed
to values that are such documents, are written as strict documents; `Plain` is what a state has to
be for that, apart from being valid. From a strict document a valid state can be read again, and
`bare` says what is left of it. -/
structure Sound (R : Record κ σ) (Valid Plain : σ → Prop) (bare : σ → σ) : Prop where
  valid_ofValue : ∀ {v s}, R.ofValue v = .ok s → Valid s
  valid_set : ∀ {s key v t}, Valid s → R.set s key v = .ok t → Valid t
  plain_ofValue : ∀ {v s}, v.isStrict = true → R.ofValue v = .ok s → Plain s
  plain_set : ∀ {s key v t}, v.isStrict = true → Plain s → R.set s key v = .ok t → Plain t
  isStrict_dump : ∀ {s}, Valid s → Plain s → (R.dump s).isStrict = true
  ofValue_dump : ∀ {s}, Valid s → (R.dump s).isStrict = true → R.ofValue (R.dump s) = .ok (bare s)

/-- What lasts over all changes of a record: it stays valid, a change that is refused leaves it as
it is, and if it has been read from a strict document, and changed to values that are such
documents, it is read again from the document it is written as. So is any other valid state that is
written as a strict document. -/
structure Lasts (R : Record κ σ) (Valid : σ → Prop) (bare : σ → σ) : Prop where
  valid : ∀ v s changes, R.ofValue v = .ok s → Valid (R.after s changes)
  unchanged : ∀ s key v problems, R.set s key v = .error problems → R.assign s (key, v) = s
  readAgain : ∀ v s changes, v.isStrict = true →
    (∀ change ∈ changes, change.2.isStrict = true) → R.ofValue v = .ok s →
      ∃ document, (R.dump (R.after s changes)).portable = .ok document ∧
        R.ofValue document = .ok (bare (R.after s changes))
  readable : ∀ s, Valid s → (R.dump s).isStrict = true →
    ∃ document, (R.dump s).portable = .ok document ∧ R.ofValue document = .ok (bare s)

variable {R : Record κ σ} {Valid Plain : σ → Prop} {bare : σ → σ}

/-- A property that every change keeps is there after all of them. -/
theorem after_induction {P : σ → Prop} {changes : List (κ × Value)} {s : σ} (h : P s)
    (hset : ∀ change ∈ changes, ∀ s t, P s → R.set s change.1 change.2 = .ok t → P t) :
    P (R.after s changes) := by
  induction changes generalizing s with
  | nil => exact h
  | cons change changes ih =>
    refine ih ?_ fun change hmem => hset change (List.mem_cons_of_mem _ hmem)
    unfold assign
    split
    · next t ht => exact hset change List.mem_cons_self s t h ht
    · exact h

theorem Sound.readable (h : R.Sound Valid Plain bare) {s : σ} (hvalid : Valid s)
    (hstrict : (R.dump s).isStrict = true) :
    ∃ document, (R.dump s).portable = .ok document ∧ R.ofValue document = .ok (bare s) :=
  ⟨R.dump s, Value.portable_of_isTreeOf (fun _ => Scalar.portable_of_isStrict) hstrict,
    h.ofValue_dump hvalid hstrict⟩

/-- **A sound record lasts.** -/
theorem Sound.lasts (h : R.Sound Valid Plain bare) : R.Lasts Valid bare := by
  have hvalid : ∀ v s changes, R.ofValue v = .ok s → Valid (R.after s changes) :=
    fun v s changes hread =>
      after_induction (h.valid_ofValue hread) fun _ _ _ _ hs hset => h.valid_set hs hset
  refine ⟨hvalid, fun s key v problems hrefused => ?_, fun v s changes hv hchanges hread => ?_,
    fun s => h.readable⟩
  · simp only [assign, hrefused]
  · have hplain : Plain (R.after s changes) :=
      after_induction (h.plain_ofValue hv hread) fun change hmem s t hs hset =>
        h.plain_set (hchanges change hmem) hs hset
    have hlast := hvalid v s changes hread
    exact h.readable hlast (h.isStrict_dump hlast hplain)

end Record

end NestedTables
