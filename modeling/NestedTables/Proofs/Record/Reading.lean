import Mathlib.Data.List.Basic
import NestedTables.Proofs.Document.Json
import NestedTables.Record.Reading

/-!
# When reading succeeds

One lemma for each reader and each way of putting readers together, which says when it succeeds
and with what. A record is then read by rewriting along its definition: what is left is a list of
the values its fields have to have.

Bytes and sets are read as texts and lists as well, so the readers of texts are looked at on JSON
documents, which have neither.
-/

namespace NestedTables

namespace Reading

variable {α β : Type}

/-! ### Putting readings together -/

theorem both_eq_ok_iff {r : Reading α} {q : Reading β} {a : α} {b : β} :
    r.both q = .ok (a, b) ↔ r = .ok a ∧ q = .ok b := by
  cases r <;> cases q <;> simp [both]

theorem map_eq_ok_iff {r : Reading α} {f : α → β} {b : β} :
    r.map f = .ok b ↔ ∃ a, r = .ok a ∧ f a = b := by
  cases r <;> simp [Except.map]

theorem checked_eq_ok_iff {r : Reading α} {q : Reading Unit} {a : α} :
    r.checked q = .ok a ↔ r = .ok a ∧ q = .ok () := by
  rw [checked, map_eq_ok_iff]
  constructor
  · rintro ⟨⟨b, u⟩, hboth, rfl⟩
    exact both_eq_ok_iff.mp hboth
  · intro h
    exact ⟨(a, ()), both_eq_ok_iff.mpr h, rfl⟩

theorem under_eq_ok_iff {key : Scalar} {r : Reading α} {a : α} :
    r.under key = .ok a ↔ r = .ok a := by
  cases r <;> simp [under]

theorem all_eq_ok_iff {rs : List (Reading α)} {as : List α} :
    all rs = .ok as ↔ rs = as.map .ok := by
  induction rs generalizing as with
  | nil => cases as <;> simp [all]
  | cons r rs ih =>
    rw [all, map_eq_ok_iff]
    constructor
    · rintro ⟨⟨b, bs⟩, hboth, rfl⟩
      obtain ⟨hr, hrs⟩ := both_eq_ok_iff.mp hboth
      rw [hr, ih.mp hrs, List.map_cons]
    · intro h
      cases as with
      | nil => simp at h
      | cons a as =>
        rw [List.map_cons, List.cons.injEq] at h
        exact ⟨(a, as), both_eq_ok_iff.mpr ⟨h.1, ih.mpr h.2⟩, rfl⟩

/-! ### Fields of a record -/

variable {names : List String} {value : Value → Reading α} {es : Fields} {a absent : α}

theorem required_eq_ok_iff : required names value es = .ok a ↔
    ∃ e, find? names es = some e ∧ value e.2 = .ok a := by
  unfold required
  split
  · next name v h => simp [h, under_eq_ok_iff]
  · next h => simp [h, under, flawed]

theorem optional_eq_ok_iff : optional names absent value es = .ok a ↔
    find? names es = none ∧ absent = a ∨ ∃ e, find? names es = some e ∧ value e.2 = .ok a := by
  unfold optional
  split
  · next name v h => simp [h, under_eq_ok_iff]
  · next h => simp [h]

theorem find?_singleton_iff {name : String} {e : String × Value} :
    find? [name] es = some e ↔ e.1 = name ∧ es.value? name = some e.2 := by
  obtain ⟨key, v⟩ := e
  cases h : es.value? name <;> simp [find?, h, eq_comm]

theorem find?_singleton_eq_none_iff {name : String} :
    find? [name] es = none ↔ es.value? name = none := by
  simp [find?]

/-- No key is left over when each of them is the name by which a field was found. -/
theorem nothingElse_eq_ok_iff {fields : List (List String)} : nothingElse fields es = .ok () ↔
    ∀ e ∈ es, ∃ names ∈ fields, ∃ found, find? names es = some found ∧ e.1 = .text found.1 := by
  have htaken : ∀ e : Scalar × Value,
      (fields.filterMap fun names => (find? names es).map (·.1)).any (fun name => e.1 = .text name)
        = true ↔
      ∃ names ∈ fields, ∃ found, find? names es = some found ∧ e.1 = .text found.1 := by
    intro e
    simp only [List.any_eq_true, List.mem_filterMap, Option.map_eq_some_iff, decide_eq_true_eq]
    constructor
    · rintro ⟨_, ⟨names, hmem, found, hfound, rfl⟩, he⟩
      exact ⟨names, hmem, found, hfound, he⟩
    · rintro ⟨names, hmem, found, hfound, he⟩
      exact ⟨_, ⟨names, hmem, found, hfound, rfl⟩, he⟩
  unfold nothingElse
  simp only []
  split
  · next h =>
    simp only [List.filter_eq_nil_iff, Bool.not_eq_true, Bool.not_eq_false', htaken] at h
    simpa using h
  · next h hne =>
    refine ⟨fun hok => by simp at hok, fun hall => absurd ?_ hne⟩
    simp only [List.filter_eq_nil_iff, Bool.not_eq_true, Bool.not_eq_false', htaken]
    exact hall

/-! ### Texts -/

theorem le_length_of_text {least : Nat} {v : Value} {s : String} (h : text least v = .ok s) :
    least ≤ s.length := by
  unfold text at h
  split at h
  · split at h
    · split at h
      · simp [flawed] at h
      · next hlength =>
        obtain rfl := Except.ok.inj h
        omega
    · simp [flawed] at h
  · simp [flawed] at h

theorem ne_empty_of_text {v : Value} {s : String} (h : text 1 v = .ok s) : s ≠ "" := by
  rintro rfl
  exact absurd (le_length_of_text h) (by decide)

theorem text_eq_ok_iff {least : Nat} {v : Value} (hjson : v.isJson = true) {s : String} :
    text least v = .ok s ↔ v = .text s ∧ least ≤ s.length := by
  cases v with
  | scalar c =>
    cases c with
    | text t =>
      simp only [text, plainText]
      split
      · next h =>
        simp only [flawed, reduceCtorEq, Value.scalar.injEq, Scalar.text.injEq, false_iff, not_and,
          Nat.not_le]
        rintro rfl
        exact h
      · next h =>
        simp only [Except.ok.injEq, Value.scalar.injEq, Scalar.text.injEq, iff_self_and]
        rintro rfl
        omega
    | bytes bs => cases hjson
    | _ => simp [text, plainText, flawed]
  | _ => simp [text, flawed]

theorem texts_eq_ok_iff {v : Value} (hjson : v.isJson = true) {ss : List String} :
    texts v = .ok ss ↔ v = .list (ss.map .text) := by
  cases v with
  | list vs =>
    have hitems := (Value.itemsTreeOf_iff vs).mp hjson
    rw [texts, all_eq_ok_iff, List.mapIdx_eq_iff, Value.list.injEq, List.ext_getElem?_iff]
    refine forall_congr' fun i => ?_
    rw [List.getElem?_map, List.getElem?_map]
    -- the texts are read off one place at a time
    cases hv : vs[i]? with
    | none => cases ss[i]? <;> simp
    | some w =>
      have hw : w.isJson = true := hitems w (List.mem_of_getElem? hv)
      cases ss[i]? with
      | none => simp
      | some s => simp [eq_comm (a := Except.ok s), under_eq_ok_iff, text_eq_ok_iff hw]
  | set ms => cases hjson
  | _ => simp [texts, flawed]

/-! ### Fields that are texts -/

theorem required_text_eq_ok_iff (hjson : es.isJson = true) {name : String} {least : Nat}
    {s : String} : required [name] (text least) es = .ok s ↔
      es.value? name = some (.text s) ∧ least ≤ s.length := by
  rw [required_eq_ok_iff]
  constructor
  · rintro ⟨e, he, hread⟩
    obtain ⟨-, hv⟩ := find?_singleton_iff.mp he
    obtain ⟨htext, hlength⟩ := (text_eq_ok_iff (Fields.isJson_of_value? hjson hv)).mp hread
    exact ⟨htext ▸ hv, hlength⟩
  · rintro ⟨hv, hlength⟩
    exact ⟨(name, .text s), find?_singleton_iff.mpr ⟨rfl, hv⟩,
      (text_eq_ok_iff (Fields.isJson_of_value? hjson hv)).mpr ⟨rfl, hlength⟩⟩

theorem optional_texts_eq_ok_iff (hjson : es.isJson = true) {name : String} {ss : List String} :
    optional [name] [] texts es = .ok ss ↔ es.value? name = none ∧ ss = [] ∨
      es.value? name = some (.list (ss.map .text)) := by
  rw [optional_eq_ok_iff, find?_singleton_eq_none_iff, eq_comm (a := [])]
  refine or_congr_right ⟨?_, fun hv => ?_⟩
  · rintro ⟨e, he, hread⟩
    obtain ⟨-, hv⟩ := find?_singleton_iff.mp he
    exact (texts_eq_ok_iff (Fields.isJson_of_value? hjson hv)).mp hread ▸ hv
  · exact ⟨(name, _), find?_singleton_iff.mpr ⟨rfl, hv⟩,
      (texts_eq_ok_iff (Fields.isJson_of_value? hjson hv)).mpr rfl⟩

end Reading

end NestedTables
