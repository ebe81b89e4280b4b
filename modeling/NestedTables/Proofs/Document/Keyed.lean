import NestedTables.Schema.Tree

/-!
# Documents whose keys are texts

A schema is a mapping whose keys are texts, each of them there once, and so is every mapping that
it has for a value. Every JSON object is of this form; but nothing is said of other values, so a
document that has dates or bytes in it is of this form as well. `Value.isKeyed` decides this. What
the walk needs of it is said by `Fields.isKeyed_iff` for one mapping, and by
`Fields.isKeyed_of_mapping?` and `Fields.isKeyed_of_mem` for the mappings inside of it.
-/

namespace NestedTables

namespace Entries

variable {κ α β : Type} [DecidableEq κ]

/-- Looking up a key of distinct keys finds the entry that is there. -/
theorem get?_eq_some_of_mem {es : Entries κ α} (hd : Distinct es) {k : κ} {v : α}
    (h : (k, v) ∈ es) : get? k es = some v := by
  induction es with
  | nil => simp at h
  | cons e es ih =>
    obtain ⟨j, w⟩ := e
    have hcons : j ∉ keys es ∧ Distinct es := by
      simpa [Distinct, keys] using hd
    rcases List.mem_cons.mp h with heq | hmem
    · obtain ⟨rfl, rfl⟩ := Prod.mk.injEq .. ▸ heq
      simp
    · have hk : k ∈ keys es := List.mem_map.mpr ⟨(k, v), hmem, rfl⟩
      have hne : j ≠ k := by
        rintro rfl
        exact hcons.1 hk
      rw [get?_cons, if_neg hne]
      exact ih hcons.2 hmem

theorem mem_of_get?_eq_some {es : Entries κ α} {k : κ} {v : α} (h : get? k es = some v) :
    (k, v) ∈ es := by
  induction es with
  | nil => simp at h
  | cons e es ih =>
    obtain ⟨j, w⟩ := e
    by_cases hj : j = k
    · subst hj
      obtain rfl : w = v := by simpa using h
      exact List.mem_cons_self
    · rw [get?_cons, if_neg hj] at h
      exact List.mem_cons_of_mem _ (ih h)

theorem get?_eq_none_iff {es : Entries κ α} {k : κ} : get? k es = none ↔ k ∉ keys es := by
  rw [mem_keys_iff, Bool.not_eq_true, Option.isSome_eq_false_iff, Option.isNone_iff_eq_none]

@[simp] theorem get?_mapValues (f : α → β) (k : κ) (es : Entries κ α) :
    get? k (mapValues f es) = (get? k es).map f := by
  induction es with
  | nil => rfl
  | cons e es ih =>
    obtain ⟨j, w⟩ := e
    have hcons : mapValues f ((j, w) :: es) = (j, f w) :: mapValues f es := rfl
    rw [hcons, get?_cons, get?_cons, ih]
    split <;> rfl

omit [DecidableEq κ] in
@[simp] theorem keys_mapValues (f : α → β) (es : Entries κ α) :
    keys (mapValues f es) = keys es := by
  simp [keys, mapValues]

omit [DecidableEq κ] in
@[simp] theorem keys_append (es fs : Entries κ α) : keys (es ++ fs) = keys es ++ keys fs := by
  simp [keys]

end Entries

/-! ### The predicate -/

/-- Whether a scalar is a text. -/
def Scalar.isText : Scalar → Bool
  | .text _ => true
  | _ => false

theorem Scalar.isText_iff {k : Scalar} : k.isText = true ↔ ∃ s, k = .text s := by
  cases k <;> simp [Scalar.isText]

namespace Value

theorem text?_eq_some_iff {v : Value} {s : String} : v.text? = some s ↔ v = .text s := by
  unfold text?
  split
  · simp
  · next hnot => exact iff_of_false (by simp) fun h => hnot s h

mutual

/-- Whether the keys of a value, and of the mappings that are values in it, are texts that are
there once. -/
def isKeyed : Value → Bool
  | .map es => decide (Entries.keys es).Nodup && entriesKeyed es
  | _ => true

def entriesKeyed : List (Scalar × Value) → Bool
  | [] => true
  | (k, v) :: es => k.isText && isKeyed v && entriesKeyed es

end

theorem entriesKeyed_iff (es : Fields) :
    entriesKeyed es = true ↔ ∀ e ∈ es, e.1.isText = true ∧ e.2.isKeyed = true := by
  induction es with
  | nil => simp [entriesKeyed]
  | cons e es ih =>
    obtain ⟨k, v⟩ := e
    simp [entriesKeyed, ih]

end Value

namespace Fields

/-- Whether the keys of a mapping, and of the mappings in it, are texts that are there once. -/
def isKeyed (node : Fields) : Bool :=
  (Value.map node).isKeyed

/-- **A keyed mapping** has each of its keys once, all of them texts, and keyed values. -/
theorem isKeyed_iff (node : Fields) :
    node.isKeyed = true ↔
      Entries.Distinct node ∧ ∀ e ∈ node, e.1.isText = true ∧ e.2.isKeyed = true := by
  simp only [isKeyed, Value.isKeyed, Bool.and_eq_true, decide_eq_true_eq, Value.entriesKeyed_iff,
    Entries.Distinct]

variable {node : Fields}

theorem isKeyed_of_mem (h : node.isKeyed = true) {k : Scalar} {sub : Fields}
    (hmem : (k, Value.map sub) ∈ node) : sub.isKeyed = true :=
  (((isKeyed_iff node).mp h).2 _ hmem).2

theorem isKeyed_of_mapping? (h : node.isKeyed = true) {key : String} {sub : Fields}
    (hsub : node.mapping? key = some sub) : sub.isKeyed = true := by
  obtain ⟨v, hv, hfields⟩ := Option.bind_eq_some_iff.mp hsub
  have hmap : v = .map sub := by
    cases v <;> simp [Value.fields?] at hfields
    rw [hfields]
  subst hmap
  exact isKeyed_of_mem h (Entries.mem_of_get?_eq_some hv)

end Fields

end NestedTables
