import Mathlib.Data.List.Nodup
import NestedTables.Document.Portable
import NestedTables.Proofs.Document.Json
import NestedTables.Proofs.Document.Pairs

/-!
# Documents that are written as they are

Trees are documents that are built as a JSON document is and whose scalars pass a test
(`Value.isTreeOf`). The tests that matter here say that a document can have been read
(`Scalar.isReadable`), that its numbers are finite (`Scalar.isFinite`), or both
(`Value.isExact`). `Value.isStrict` does not ask for the length of integers: it holds of all the
documents that JSON has a form for, which is none for infinite numbers.

A strict document is portable as it is (`Value.portable_of_isTreeOf`). One that has been read has a
portable form (`Value.exists_portable_of_isTreeOf`), and no integer of it is too long to be written
(`Value.isWritable_of_isTreeOf`).
-/

namespace NestedTables

/-! ### Scalars -/

namespace Scalar

/-- Whether a scalar is no infinite number, and none that is no number. -/
def isFinite : Scalar → Bool
  | .real x => x.isFinite
  | _ => true

/-- Whether a scalar can be read in JSON. -/
def isReadable (s : Scalar) : Bool :=
  s.isJson && s.isWritable

/-- Whether a scalar can be read in JSON, and is written as it is. -/
def isExact (s : Scalar) : Bool :=
  s.isReadable && s.isFinite

/-- Whether JSON has a form for a scalar. -/
def isStrict (s : Scalar) : Bool :=
  s.isJson && s.isFinite

/-- Whether null and all texts pass a test. -/
structure PassesTexts (p : Scalar → Bool) : Prop where
  null : p .null = true
  text : ∀ s, p (.text s) = true

theorem passesTexts_isExact : PassesTexts isExact where
  null := rfl
  text _ := rfl

theorem passesTexts_isStrict : PassesTexts isStrict where
  null := rfl
  text _ := rfl

theorem passesTexts_isReadable : PassesTexts isReadable where
  null := rfl
  text _ := rfl

theorem isWritable_of_isReadable {s : Scalar} (h : s.isReadable = true) : s.isWritable = true :=
  (Bool.and_eq_true_iff.mp h).2

theorem isWritable_of_isExact {s : Scalar} (h : s.isExact = true) : s.isWritable = true :=
  isWritable_of_isReadable (Bool.and_eq_true_iff.mp h).1

theorem isReadable_int (n : Int) : (Scalar.int n).isReadable = Text.isWritable n := by
  simp [isReadable, isJson, isWritable]

theorem isExact_int (n : Int) : (Scalar.int n).isExact = Text.isWritable n := by
  rw [isExact, isReadable_int]
  exact Bool.and_true _

theorem portable_of_isStrict {s : Scalar} (h : s.isStrict = true) : s.portable = .ok s := by
  cases s with
  | real x =>
    have hfinite : x.isFinite = true := h
    simp [portable, hfinite]
  | date | moment | bytes => simp [isStrict, isJson] at h
  | null | bool | int | text => rfl

theorem isStrict_of_isExact {s : Scalar} (h : s.isExact = true) : s.isStrict = true := by
  rw [isExact, isReadable, Bool.and_eq_true, Bool.and_eq_true] at h
  rw [isStrict, Bool.and_eq_true]
  exact ⟨h.1.1, h.2⟩

theorem portable_of_isExact {s : Scalar} (h : s.isExact = true) : s.portable = .ok s :=
  portable_of_isStrict (isStrict_of_isExact h)

/-- What is read has a portable form, which could have been read as well. -/
theorem exists_portable_of_isReadable {s : Scalar} (h : s.isReadable = true) :
    ∃ s', s.portable = .ok s' ∧ s'.isReadable = true := by
  cases s with
  | real x =>
    cases hfinite : x.isFinite with
    | true => exact ⟨.real x, by simp [portable, hfinite], rfl⟩
    | false => exact ⟨.null, by simp [portable, hfinite], rfl⟩
  | date | moment | bytes => simp [isReadable, isJson] at h
  | null | bool | int | text => exact ⟨_, rfl, h⟩

end Scalar

/-! ### Mappings from texts -/

/-- A mapping with each key once, texts for keys, and values of which `P` holds. -/
structure Entries.IsObject {α : Type} (P : α → Prop) (es : Entries Scalar α) : Prop where
  distinct : Distinct es
  texts : ∀ e ∈ es, e.1.isText = true
  values : ∀ e ∈ es, P e.2

namespace Entries

variable {α β : Type} {P : α → Prop} {es : Entries Scalar α} {k : Scalar} {v : α}

theorem isObject_nil : IsObject P [] where
  distinct := List.nodup_nil
  texts := by simp
  values := by simp

theorem IsObject.put (h : IsObject P es) (hk : k.isText = true) (hv : P v) :
    IsObject P (put k v es) where
  distinct := h.distinct.put k v
  texts e he := by
    rcases mem_of_mem_put he with rfl | hmem
    · exact hk
    · exact h.texts e hmem
  values e he := by
    rcases mem_of_mem_put he with rfl | hmem
    · exact hv
    · exact h.values e hmem

theorem IsObject.putNew (h : IsObject P es) (hk : k.isText = true) (hv : P v) :
    IsObject P (putNew k v es) := by
  unfold Entries.putNew
  split
  · exact h
  · next hnew =>
    rw [has_iff] at hnew
    rw [← put_of_not_mem hnew]
    exact h.put hk hv

theorem IsObject.filter (h : IsObject P es) (p : Scalar × α → Bool) :
    IsObject P (es.filter p) where
  distinct := h.distinct.filter p
  texts e he := h.texts e (List.mem_filter.mp he).1
  values e he := h.values e (List.mem_filter.mp he).1

theorem IsObject.mapValues {Q : β → Prop} {f : α → β} (h : IsObject P es)
    (hf : ∀ v, P v → Q (f v)) : IsObject Q (es.mapValues f) where
  distinct := by
    rw [Distinct, keys_mapValues]
    exact h.distinct
  texts e he := by
    obtain ⟨e', he', rfl⟩ := List.mem_map.mp he
    exact h.texts e' he'
  values e he := by
    obtain ⟨e', he', rfl⟩ := List.mem_map.mp he
    exact hf _ (h.values e' he')

theorem IsObject.of_get? (h : IsObject P es) (hget : get? k es = some v) : P v :=
  h.values _ (mem_of_get?_eq_some hget)

end Entries

/-! ### Trees -/

namespace Value

variable {p q : Scalar → Bool}

mutual

/-- Two tests at once. -/
theorem isTreeOf_and : ∀ {v : Value}, v.isTreeOf p = true → v.isTreeOf q = true →
    v.isTreeOf (fun s => p s && q s) = true
  | .scalar _, hp, hq => Bool.and_eq_true_iff.mpr ⟨hp, hq⟩
  | .list _, hp, hq => itemsTreeOf_and hp hq
  | .map _, hp, hq => by
    rw [isTreeOf, Bool.and_eq_true] at *
    exact ⟨hp.1, entriesTreeOf_and hp.2 hq.2⟩
  | .set _, hp, _ | .pair _ _, hp, _ => Bool.noConfusion hp

theorem itemsTreeOf_and : ∀ {vs : List Value}, itemsTreeOf p vs = true → itemsTreeOf q vs = true →
    itemsTreeOf (fun s => p s && q s) vs = true
  | [], _, _ => rfl
  | v :: vs, hp, hq => by
    rw [itemsTreeOf, Bool.and_eq_true] at *
    exact ⟨isTreeOf_and hp.1 hq.1, itemsTreeOf_and hp.2 hq.2⟩

theorem entriesTreeOf_and : ∀ {es : List (Scalar × Value)}, entriesTreeOf p es = true →
    entriesTreeOf q es = true → entriesTreeOf (fun s => p s && q s) es = true
  | [], _, _ => rfl
  | (k, v) :: es, hp, hq => by
    simp only [entriesTreeOf, Bool.and_eq_true] at *
    exact ⟨⟨hp.1.1, isTreeOf_and hp.1.2 hq.1.2⟩, entriesTreeOf_and hp.2 hq.2⟩

end

mutual

theorem isKeyed_of_isTreeOf : ∀ {v : Value}, v.isTreeOf p = true → v.isKeyed = true
  | .map es, h => by
    rw [isTreeOf, Bool.and_eq_true] at h
    rw [isKeyed, Bool.and_eq_true]
    exact ⟨h.1, entriesKeyed_of_entriesTreeOf h.2⟩
  | .scalar _, _ | .list _, _ | .set _, _ | .pair _ _, _ => rfl

theorem entriesKeyed_of_entriesTreeOf :
    ∀ {es : List (Scalar × Value)}, entriesTreeOf p es = true → entriesKeyed es = true
  | [], _ => rfl
  | (k, v) :: es, h => by
    simp only [entriesTreeOf, Bool.and_eq_true] at h
    simp only [entriesKeyed, Bool.and_eq_true]
    exact ⟨⟨h.1.1, isKeyed_of_isTreeOf h.1.2⟩, entriesKeyed_of_entriesTreeOf h.2⟩

end

/-- A mapping is a tree if it is an object whose values are. -/
theorem isTreeOf_map_iff_isObject {es : Fields} : (Value.map es).isTreeOf p = true ↔
    Entries.IsObject (fun v : Value => v.isTreeOf p = true) es := by
  rw [isTreeOf_map_iff]
  exact ⟨fun h => ⟨h.1, fun e he => (h.2 e he).1, fun e he => (h.2 e he).2⟩,
    fun h => ⟨h.distinct, fun e he => ⟨h.texts e he, h.values e he⟩⟩⟩

/-- A document that is put together from texts and trees is a tree. -/
theorem isTreeOf_object {es : Entries String Value} (hd : Entries.Distinct es)
    (h : ∀ e ∈ es, e.2.isTreeOf p = true) : (Value.object es).isTreeOf p = true := by
  refine isTreeOf_map_iff_isObject.mpr ⟨?_, ?_, ?_⟩
  · have hinj : Function.Injective Scalar.text := fun _ _ heq => Scalar.text.inj heq
    simpa [Entries.Distinct, Entries.keys, Function.comp_def] using List.Nodup.map hinj hd
  · rintro _ he
    obtain ⟨e, -, rfl⟩ := List.mem_map.mp he
    rfl
  · rintro _ he
    obtain ⟨e, hmem, rfl⟩ := List.mem_map.mp he
    exact h e hmem

/-- The values in a tree are trees. -/
theorem isTreeOf_of_mem_object {es : Entries String Value} (h : (Value.object es).isTreeOf p = true)
    {e : String × Value} (he : e ∈ es) : e.2.isTreeOf p = true :=
  (((isTreeOf_map_iff _).mp h).2 _ (List.mem_map_of_mem he)).2

/-! ### Portable documents -/

mutual

/-- **A document of portable scalars is portable as it is.** -/
theorem portable_of_isTreeOf (hp : ∀ s, p s = true → s.portable = .ok s) :
    ∀ {v : Value}, v.isTreeOf p = true → v.portable = .ok v
  | .scalar s, h => by
    rw [portable, hp s h]
    rfl
  | .list vs, h => by
    rw [portable, portableItems_of_itemsTreeOf hp h]
    rfl
  | .map es, h => by
    rw [isTreeOf, Bool.and_eq_true, decide_eq_true_eq] at h
    rw [portable, portableEntries_of_entriesTreeOf hp h.2]
    exact congrArg (fun es => Except.ok (Value.map es)) (Entries.ofPairs_eq_self h.1)
  | .set _, h | .pair _ _, h => Bool.noConfusion h

theorem portableItems_of_itemsTreeOf (hp : ∀ s, p s = true → s.portable = .ok s) :
    ∀ {vs : List Value}, itemsTreeOf p vs = true → portableItems vs = .ok vs
  | [], _ => rfl
  | v :: vs, h => by
    rw [itemsTreeOf, Bool.and_eq_true] at h
    rw [portableItems, portable_of_isTreeOf hp h.1, portableItems_of_itemsTreeOf hp h.2]
    rfl

theorem portableEntries_of_entriesTreeOf (hp : ∀ s, p s = true → s.portable = .ok s) :
    ∀ {es : List (Scalar × Value)}, entriesTreeOf p es = true → portableEntries es = .ok es
  | [], _ => rfl
  | (k, v) :: es, h => by
    simp only [entriesTreeOf, Bool.and_eq_true] at h
    obtain ⟨s, rfl⟩ := Scalar.isText_iff.mp h.1.1
    rw [portableEntries, portable_of_isTreeOf hp h.1.2, portableEntries_of_entriesTreeOf hp h.2]
    rfl

end

mutual

/-- **A document has a portable form** if its scalars have. -/
theorem exists_portable_of_isTreeOf
    (hp : ∀ s, p s = true → ∃ s', s.portable = .ok s' ∧ q s' = true) :
    ∀ {v : Value}, v.isTreeOf p = true → ∃ v', v.portable = .ok v' ∧ v'.isTreeOf q = true
  | .scalar s, h => by
    obtain ⟨s', hs', hq⟩ := hp s h
    refine ⟨.scalar s', ?_, hq⟩
    rw [portable, hs']
    rfl
  | .list vs, h => by
    obtain ⟨vs', hvs', hq⟩ := exists_portableItems_of_itemsTreeOf hp h
    refine ⟨.list vs', ?_, hq⟩
    rw [portable, hvs']
    rfl
  | .map es, h => by
    rw [isTreeOf, Bool.and_eq_true, decide_eq_true_eq] at h
    obtain ⟨es', hes', hkeys, hq⟩ := exists_portableEntries_of_entriesTreeOf hp h.2
    have hdistinct : (Entries.keys es').Nodup := hkeys ▸ h.1
    refine ⟨.map es', ?_, ?_⟩
    · rw [portable, hes']
      exact congrArg (fun es => Except.ok (Value.map es)) (Entries.ofPairs_eq_self hdistinct)
    · rw [isTreeOf, Bool.and_eq_true, decide_eq_true_eq]
      exact ⟨hdistinct, hq⟩
  | .set _, h | .pair _ _, h => Bool.noConfusion h

theorem exists_portableItems_of_itemsTreeOf
    (hp : ∀ s, p s = true → ∃ s', s.portable = .ok s' ∧ q s' = true) :
    ∀ {vs : List Value}, itemsTreeOf p vs = true →
      ∃ vs', portableItems vs = .ok vs' ∧ itemsTreeOf q vs' = true
  | [], _ => ⟨[], rfl, rfl⟩
  | v :: vs, h => by
    rw [itemsTreeOf, Bool.and_eq_true] at h
    obtain ⟨v', hv', hqv⟩ := exists_portable_of_isTreeOf hp h.1
    obtain ⟨vs', hvs', hqvs⟩ := exists_portableItems_of_itemsTreeOf hp h.2
    refine ⟨v' :: vs', ?_, ?_⟩
    · rw [portableItems, hv', hvs']
      rfl
    · rw [itemsTreeOf, Bool.and_eq_true]
      exact ⟨hqv, hqvs⟩

/-- The keys of a mapping stay. -/
theorem exists_portableEntries_of_entriesTreeOf
    (hp : ∀ s, p s = true → ∃ s', s.portable = .ok s' ∧ q s' = true) :
    ∀ {es : List (Scalar × Value)}, entriesTreeOf p es = true →
      ∃ es', portableEntries es = .ok es' ∧ Entries.keys es' = Entries.keys es ∧
        entriesTreeOf q es' = true
  | [], _ => ⟨[], rfl, rfl, rfl⟩
  | (k, v) :: es, h => by
    simp only [entriesTreeOf, Bool.and_eq_true] at h
    obtain ⟨s, rfl⟩ := Scalar.isText_iff.mp h.1.1
    obtain ⟨v', hv', hqv⟩ := exists_portable_of_isTreeOf hp h.1.2
    obtain ⟨es', hes', hkeys, hqes⟩ := exists_portableEntries_of_entriesTreeOf hp h.2
    refine ⟨(.text s, v') :: es', ?_, congrArg (Scalar.text s :: ·) hkeys, ?_⟩
    · rw [portableEntries, hv', hes']
      rfl
    · simp only [entriesTreeOf, Bool.and_eq_true]
      exact ⟨⟨rfl, hqv⟩, hqes⟩

end

/-! ### Exact and strict documents -/

/-- Whether a document can have been read in JSON, and has finite numbers only. -/
def isExact (v : Value) : Bool :=
  v.isTreeOf Scalar.isExact

/-- Whether JSON has a form for a document. -/
def isStrict (v : Value) : Bool :=
  v.isTreeOf Scalar.isStrict

mutual

/-- **No integer is too long to be written** if none is that passes the test. -/
theorem isWritable_of_isTreeOf (hp : ∀ s, p s = true → s.isWritable = true) :
    ∀ {v : Value}, v.isTreeOf p = true → v.isWritable = true
  | .scalar s, h => hp s h
  | .list vs, h => allWritable_of_itemsTreeOf hp h
  | .map es, h => by
    rw [isTreeOf, Bool.and_eq_true] at h
    exact entriesWritable_of_entriesTreeOf hp h.2
  | .set _, h | .pair _ _, h => Bool.noConfusion h

theorem allWritable_of_itemsTreeOf (hp : ∀ s, p s = true → s.isWritable = true) :
    ∀ {vs : List Value}, itemsTreeOf p vs = true → allWritable vs = true
  | [], _ => rfl
  | v :: vs, h => by
    rw [itemsTreeOf, Bool.and_eq_true] at h
    rw [allWritable, Bool.and_eq_true]
    exact ⟨isWritable_of_isTreeOf hp h.1, allWritable_of_itemsTreeOf hp h.2⟩

theorem entriesWritable_of_entriesTreeOf (hp : ∀ s, p s = true → s.isWritable = true) :
    ∀ {es : List (Scalar × Value)}, entriesTreeOf p es = true → entriesWritable es = true
  | [], _ => rfl
  | (k, v) :: es, h => by
    simp only [entriesTreeOf, Bool.and_eq_true] at h
    obtain ⟨s, rfl⟩ := Scalar.isText_iff.mp h.1.1
    simp only [entriesWritable, Bool.and_eq_true]
    exact ⟨⟨rfl, isWritable_of_isTreeOf hp h.1.2⟩, entriesWritable_of_entriesTreeOf hp h.2⟩

end

end Value

end NestedTables
