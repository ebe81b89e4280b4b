import Mathlib.Data.List.Duplicate
import NestedTables.Proofs.Compile.Outline
import NestedTables.Proofs.Document.Pairs

/-!
# Names of relations

Relations are collected in lists under their names, and a name may be taken only once. Where
all names are texts, a list of relations takes further ones exactly when no name appears
twice in both together (`Walk.merge_eq_ok`), and a refusal names one that does
(`Walk.merge_eq_error`). Lists that have been put together in this way keep their names when
the table they belong to is described (`Walk.relationNames_eq_ok`).
-/

namespace NestedTables.Walk

variable {η α β : Type}

/-- Whether all keys are texts. -/
def Textual (es : Entries Scalar α) : Prop :=
  ∀ k ∈ Entries.keys es, k.isText = true

@[simp] theorem textual_nil : Textual ([] : Entries Scalar α) := by simp [Textual, Entries.keys]

@[simp] theorem textual_append {es fs : Entries Scalar α} :
    Textual (es ++ fs) ↔ Textual es ∧ Textual fs := by
  simp only [Textual, Entries.keys_append, List.mem_append]
  constructor
  · exact fun h => ⟨fun k hk => h k (Or.inl hk), fun k hk => h k (Or.inr hk)⟩
  · rintro ⟨he, hf⟩ k (hk | hk)
    · exact he k hk
    · exact hf k hk

theorem textual_cons {e : Scalar × α} {es : Entries Scalar α} :
    Textual (e :: es) ↔ e.1.isText = true ∧ Textual es := by
  simp [Textual, Entries.keys]

theorem textual_congr {es : Entries Scalar α} {fs : Entries Scalar β}
    (h : Entries.keys es = Entries.keys fs) : Textual es ↔ Textual fs := by
  simp [Textual, h]

theorem same_text_iff {k name : Scalar} (hk : k.isText = true) (hname : name.isText = true) :
    k.same name = true ↔ k = name := by
  obtain ⟨s, rfl⟩ := Scalar.isText_iff.mp hk
  obtain ⟨t, rfl⟩ := Scalar.isText_iff.mp hname
  simp [Scalar.same]

variable {acc incoming : Entries Scalar (Relation η)} {at_ : Pointer}

theorem taken_iff {name : Scalar} (hacc : Textual acc) (hname : name.isText = true) :
    taken acc name = true ↔ name ∈ Entries.keys acc := by
  simp only [taken, List.any_eq_true, Bool.or_eq_true, decide_eq_true_eq]
  constructor
  · rintro ⟨k, hk, rfl | hsame⟩
    · exact hk
    · exact (same_text_iff (hacc k hk) hname).mp hsame ▸ hk
  · exact fun h => ⟨name, h, Or.inl rfl⟩

theorem attach_eq {name : Scalar} {r : Relation η} (hacc : Textual acc)
    (hname : name.isText = true) :
    attach acc name r at_ =
      if name ∈ Entries.keys acc then .error (.collision name (.text at_.written))
      else .ok (acc ++ [(name, r)]) := by
  unfold attach
  by_cases h : name ∈ Entries.keys acc
  · rw [if_pos ((taken_iff hacc hname).mpr h), if_pos h]
  · rw [if_neg (mt (taken_iff hacc hname).mp h), if_neg h]

theorem merge_cons {e : Scalar × Relation η} (hacc : Textual acc) (he : e.1.isText = true) :
    merge acc (e :: incoming) at_ =
      if e.1 ∈ Entries.keys acc then .error (.collision e.1 (.text at_.written))
      else merge (acc ++ [e]) incoming at_ := by
  unfold merge
  rw [List.foldlM_cons, attach_eq hacc he]
  split <;> rfl

/-- **Relations with new names are taken in.** -/
theorem merge_eq_ok (hacc : Textual acc) (hincoming : Textual incoming)
    (hnodup : (Entries.keys (acc ++ incoming)).Nodup) :
    merge acc incoming at_ = .ok (acc ++ incoming) := by
  induction incoming generalizing acc with
  | nil => simp [merge, pure, Except.pure]
  | cons e incoming ih =>
    obtain ⟨he, hincoming⟩ := textual_cons.mp hincoming
    have hassoc : acc ++ e :: incoming = (acc ++ [e]) ++ incoming := by simp
    have hnew : e.1 ∉ Entries.keys acc := by
      rw [Entries.keys_append, List.nodup_append] at hnodup
      exact fun hmem => hnodup.2.2 _ hmem _ (by simp [Entries.keys]) rfl
    rw [merge_cons hacc he, if_neg hnew, hassoc]
    rw [hassoc] at hnodup
    refine ih ?_ hincoming hnodup
    exact textual_append.mpr ⟨hacc, textual_cons.mpr ⟨he, textual_nil⟩⟩

/-- What is in both of two lists is twice in the two of them together. -/
theorem duplicate_append {κ : Type} [DecidableEq κ] {as bs : List κ} {a : κ} (ha : a ∈ as)
    (hb : a ∈ bs) : List.Duplicate a (as ++ bs) := by
  rw [List.duplicate_iff_two_le_count, List.count_append]
  have h₁ : 1 ≤ as.count a := List.one_le_count_iff.mpr ha
  have h₂ : 1 ≤ bs.count a := List.one_le_count_iff.mpr hb
  omega

/-- **A refusal names a relation that is there twice.** -/
theorem merge_eq_error (at_ : Pointer) (hacc : Textual acc) (hincoming : Textual incoming)
    (hnodup : (Entries.keys acc).Nodup)
    (hdup : ¬ (Entries.keys (acc ++ incoming)).Nodup) :
    ∃ name, merge acc incoming at_ = .error (.collision name (.text at_.written)) ∧
      List.Duplicate name (Entries.keys (acc ++ incoming)) := by
  induction incoming generalizing acc with
  | nil => exact absurd (by simpa using hnodup) hdup
  | cons e incoming ih =>
    obtain ⟨he, hincoming⟩ := textual_cons.mp hincoming
    have hassoc : acc ++ e :: incoming = (acc ++ [e]) ++ incoming := by simp
    rw [merge_cons hacc he]
    by_cases hmem : e.1 ∈ Entries.keys acc
    · refine ⟨e.1, by rw [if_pos hmem], ?_⟩
      rw [Entries.keys_append]
      exact duplicate_append hmem (by simp [Entries.keys])
    · -- the name is free, and the refusal comes from one of the others
      rw [if_neg hmem, hassoc]
      refine ih (textual_append.mpr ⟨hacc, textual_cons.mpr ⟨he, textual_nil⟩⟩) hincoming ?_ ?_
      · rw [Entries.keys_append, List.nodup_append]
        refine ⟨hnodup, by simp [Entries.keys], fun a ha b hb => ?_⟩
        obtain rfl : b = e.1 := by simpa [Entries.keys] using hb
        rintro rfl
        exact hmem ha
      · rwa [← hassoc]

/-! ### Names as texts -/

theorem all_ok (f : α → β) (as : List α) :
    Reading.all (as.map fun a => (.ok (f a) : Reading β)) = .ok (as.map f) := by
  induction as with
  | nil => rfl
  | cons a as ih => simp [Reading.all, ih, Reading.both, Except.map]

theorem keys_textKeys (es : Entries Scalar α) :
    Entries.keys (textKeys es) = (Entries.keys es).map Scalar.plain := by
  simp [textKeys, Entries.keys]

theorem distinct_textKeys {es : Entries Scalar α} (htext : Textual es)
    (hnodup : (Entries.keys es).Nodup) : Entries.Distinct (textKeys es) := by
  rw [Entries.Distinct, keys_textKeys]
  refine hnodup.map_on fun k hk k' hk' heq => ?_
  obtain ⟨s, rfl⟩ := Scalar.isText_iff.mp (htext k hk)
  obtain ⟨t, rfl⟩ := Scalar.isText_iff.mp (htext k' hk')
  exact congrArg Scalar.text heq

/-- **The names of a table's relations can be read**, and they stay as they are. -/
theorem relationNames_eq_ok (hacc : Textual acc) (hnodup : (Entries.keys acc).Nodup) :
    relationNames acc = .ok (textKeys acc) := by
  have hkey : ∀ e ∈ acc, ((Reading.key e.1).map fun name => (name, e.2)) =
      .ok (e.1.plain, e.2) := by
    intro e he
    obtain ⟨s, hs⟩ := Scalar.isText_iff.mp (hacc e.1 (List.mem_map.mpr ⟨e, he, rfl⟩))
    rw [hs]
    rfl
  rw [relationNames, List.map_congr_left hkey, all_ok]
  simp only [Except.map, Reading.under]
  exact congrArg Except.ok (Entries.ofPairs_eq_self (distinct_textKeys hacc hnodup))

end NestedTables.Walk
