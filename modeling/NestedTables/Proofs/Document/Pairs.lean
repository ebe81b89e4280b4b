import NestedTables.Proofs.Document.Keyed

/-!
# Mappings that are put together from pairs

`Entries.ofPairs` puts pairs into a mapping one after the other. Of two pairs with the same key
the later value counts, and it stands where the key stood first (`Entries.get?_ofPairs`).
Pairs with different keys are a mapping as they are (`Entries.ofPairs_eq_self`).

Giving a key of a mapping a new value is a change of each entry by itself
(`Entries.put_eq_map`), and it commutes with a change of all values.
-/

namespace NestedTables.Entries

variable {κ α β : Type}

/-! ### Changing values -/

theorem mapValues_cons (f : α → β) (k : κ) (v : α) (es : Entries κ α) :
    mapValues f ((k, v) :: es) = (k, f v) :: mapValues f es := rfl

@[simp] theorem mapValues_append (f : α → β) (es fs : Entries κ α) :
    mapValues f (es ++ fs) = mapValues f es ++ mapValues f fs := by
  simp [mapValues]

/-- What is left of a mapping depends on the keys, and not on the values. -/
theorem mapValues_filter (f : α → β) (keep : κ → Bool) (es : Entries κ α) :
    mapValues f (es.filter fun e => keep e.1) =
      (mapValues f es : Entries κ β).filter fun e => keep e.1 := by
  simp [mapValues, List.filter_map, Function.comp_def]

variable [DecidableEq κ]

theorem mapValues_put (f : α → β) (k : κ) (v : α) (es : Entries κ α) :
    mapValues f (put k v es) = put k (f v) (mapValues f es) := by
  induction es with
  | nil => rfl
  | cons e es ih =>
    obtain ⟨j, w⟩ := e
    by_cases h : j = k
    · simp [put, mapValues_cons, h]
    · simp [put, mapValues_cons, h, ih]

/-- Putting some pairs, and changing all values. -/
theorem mapValues_foldl_put (f : α → β) (ps es : Entries κ α) :
    mapValues f (ps.foldl (fun es e => put e.1 e.2 es) es) =
      (mapValues f ps : Entries κ β).foldl (fun es e => put e.1 e.2 es) (mapValues f es) := by
  induction ps generalizing es with
  | nil => rfl
  | cons p ps ih =>
    obtain ⟨k, v⟩ := p
    rw [List.foldl_cons, ih, mapValues_put, mapValues_cons, List.foldl_cons]

theorem get?_filter (keep : κ → Bool) {k : κ} (hk : keep k = true) (es : Entries κ α) :
    get? k (es.filter fun e => keep e.1) = get? k es := by
  induction es with
  | nil => rfl
  | cons e es ih =>
    obtain ⟨j, v⟩ := e
    rw [List.filter_cons, get?_cons, ← ih]
    by_cases hj : j = k
    · simp [hj, hk]
    · cases keep j <;> simp [hj]

omit [DecidableEq κ] in
theorem Distinct.filter {es : Entries κ α} (h : Distinct es) (p : κ × α → Bool) :
    Distinct (es.filter p) :=
  h.sublist (List.filter_sublist.map _)

theorem put_put (k : κ) (v w : α) (es : Entries κ α) : put k v (put k w es) = put k v es := by
  induction es with
  | nil => simp [put]
  | cons e es ih =>
    obtain ⟨j, u⟩ := e
    by_cases h : j = k
    · simp [put, h]
    · simp [put, h, ih]

theorem put_of_get? {k : κ} {v : α} {es : Entries κ α} (h : get? k es = some v) :
    put k v es = es := by
  induction es with
  | nil => simp at h
  | cons e es ih =>
    obtain ⟨j, u⟩ := e
    by_cases hj : j = k
    · simp only [get?_cons, hj, if_true, Option.some.injEq] at h
      simp [put, hj, h]
    · simp only [get?_cons, hj, if_false] at h
      simp [put, hj, ih h]

theorem put_of_not_mem {k : κ} {es : Entries κ α} (h : k ∉ keys es) (v : α) :
    put k v es = es ++ [(k, v)] := by
  induction es with
  | nil => rfl
  | cons e es ih =>
    obtain ⟨hne, hes⟩ := not_or.mp (mt List.mem_cons.mpr h)
    rw [put, if_neg (Ne.symm hne), ih hes, List.cons_append]

/-- Giving a key a value brings in no other entry. -/
theorem mem_of_mem_put {k : κ} {v : α} {es : Entries κ α} {e : κ × α} (h : e ∈ put k v es) :
    e = (k, v) ∨ e ∈ es := by
  induction es with
  | nil => exact Or.inl (List.mem_singleton.mp h)
  | cons f es ih =>
    obtain ⟨j, w⟩ := f
    rw [put] at h
    split at h
    · exact (List.mem_cons.mp h).imp_right (List.mem_cons_of_mem _)
    · rcases List.mem_cons.mp h with rfl | hmem
      · exact Or.inr List.mem_cons_self
      · exact (ih hmem).imp_right (List.mem_cons_of_mem _)

/-- **Giving a key of a mapping a new value** changes the entry of the key, where it stands. -/
theorem put_eq_map {es : Entries κ α} (hd : Distinct es) {k : κ} (hk : k ∈ keys es) (v : α) :
    put k v es = es.map fun e => (e.1, if e.1 = k then v else e.2) := by
  induction es with
  | nil => simp [keys] at hk
  | cons e es ih =>
    obtain ⟨j, w⟩ := e
    have hcons : j ∉ keys es ∧ Distinct es := by simpa [Distinct, keys] using hd
    by_cases hj : j = k
    · subst hj
      -- the key is not there any more, so what comes after stays as it is
      have hrest : es.map (fun e => (e.1, if e.1 = j then v else e.2)) = es := by
        refine (List.map_congr_left fun e he => ?_).trans (List.map_id es)
        have hne : e.1 ≠ j := by
          rintro rfl
          exact hcons.1 (List.mem_map.mpr ⟨e, he, rfl⟩)
        simp [hne]
      simp [put, hrest]
    · have hmem : k ∈ keys es := by simpa [keys, Ne.symm hj] using hk
      simp [put, hj, ih hcons.2 hmem]

/-! ### Pairs -/

@[simp] theorem mapValues_ofPairs (f : α → β) (ps : Entries κ α) :
    mapValues f (ofPairs ps) = (ofPairs (mapValues f ps) : Entries κ β) :=
  mapValues_foldl_put f ps []

/-- What is put last counts, and it counts for its own key only. -/
theorem get?_foldl_put (k : κ) (ps es : Entries κ α) :
    get? k (ps.foldl (fun es e => put e.1 e.2 es) es) =
      (get? k ps.reverse).or (get? k es) := by
  induction ps generalizing es with
  | nil => rfl
  | cons p ps ih =>
    rw [List.foldl_cons, ih, get?_put, List.reverse_cons, get?_append, Option.or_assoc]
    congr 1
    obtain ⟨j, v⟩ := p
    by_cases h : j = k <;> simp [h]

/-- **The value of a key is that of the last pair** with the key. -/
theorem get?_ofPairs (k : κ) (ps : Entries κ α) : get? k (ofPairs ps) = get? k ps.reverse := by
  rw [ofPairs, get?_foldl_put, get?_nil, Option.or_none]

/-- Pairs with new keys come behind what is there. -/
theorem foldl_put_eq_append (ps es : Entries κ α) (h : (keys (es ++ ps)).Nodup) :
    ps.foldl (fun es e => put e.1 e.2 es) es = es ++ ps := by
  induction ps generalizing es with
  | nil => simp
  | cons p ps ih =>
    have hnew : p.1 ∉ keys es := by
      rw [keys_append, List.nodup_append] at h
      exact fun hmem => h.2.2 _ hmem _ (by simp [keys]) rfl
    rw [List.foldl_cons, put_of_not_mem hnew, ih _ (by simpa using h)]
    simp

/-- **Pairs with different keys** are a mapping as they are. -/
theorem ofPairs_eq_self {es : Entries κ α} (h : Distinct es) : ofPairs es = es := by
  rw [ofPairs, foldl_put_eq_append es [] (by rwa [List.nil_append]), List.nil_append]

theorem distinct_foldl_put (ps : Entries κ α) {es : Entries κ α} (h : Distinct es) :
    Distinct (ps.foldl (fun es e => put e.1 e.2 es) es) := by
  induction ps generalizing es with
  | nil => exact h
  | cons p ps ih => exact ih (h.put p.1 p.2)

/-- **The keys of what is put together** are there once. -/
theorem distinct_ofPairs (ps : Entries κ α) : Distinct (ofPairs ps) :=
  distinct_foldl_put ps List.nodup_nil

/-- What is put together from pairs has no other entries. -/
theorem mem_of_mem_ofPairs {ps : Entries κ α} {e : κ × α} (h : e ∈ ofPairs ps) : e ∈ ps := by
  have hget := get?_eq_some_of_mem (distinct_ofPairs ps) h
  rw [get?_ofPairs] at hget
  exact List.mem_reverse.mp (mem_of_get?_eq_some hget)

end NestedTables.Entries
