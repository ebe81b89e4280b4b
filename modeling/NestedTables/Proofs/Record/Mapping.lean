import NestedTables.Proofs.Document.Exact
import NestedTables.Proofs.Record.Reading

/-!
# What is read of fields and mappings

What a field is read as has been read of a value of the record, or is what the field has when it is
not there (`Reading.exists_of_optional`). Likewise, what is read as a mapping from texts has each
key once, and its values have been read of values of the mapping (`Reading.exists_of_mapping`).
Therefore a property of all values of a document becomes one of what is read of it.

A mapping from texts whose values can be read is read as the mapping of what they are read as, in
its order (`Reading.mapping_object`).
-/

namespace NestedTables

namespace Reading

variable {α β γ : Type}

/-! ### Fields -/

variable {names : List String} {value : Value → Reading α} {es : Fields} {a absent : α}

theorem exists_mem_of_find? {found : String × Value} (h : find? names es = some found) :
    (.text found.1, found.2) ∈ es := by
  obtain ⟨name, -, hname⟩ := List.exists_of_findSome?_eq_some h
  obtain ⟨v, hv, rfl⟩ := Option.map_eq_some_iff.mp hname
  exact Entries.mem_of_get?_eq_some hv

theorem exists_of_required (h : required names value es = .ok a) : ∃ e ∈ es, value e.2 = .ok a := by
  obtain ⟨found, hfound, hread⟩ := required_eq_ok_iff.mp h
  exact ⟨_, exists_mem_of_find? hfound, hread⟩

theorem exists_of_optional (h : optional names absent value es = .ok a) :
    absent = a ∨ ∃ e ∈ es, value e.2 = .ok a := by
  refine (optional_eq_ok_iff.mp h).imp And.right ?_
  rintro ⟨found, hfound, hread⟩
  exact ⟨_, exists_mem_of_find? hfound, hread⟩

/-- A record is read from a mapping. -/
theorem record_eq_ok_iff {name : String} {read : Fields → Reading α} {v : Value} :
    record name read v = .ok a ↔ ∃ es, v = .map es ∧ read es = .ok a := by
  unfold record
  cases v <;> simp [flawed]

/-! ### Texts -/

theorem text_text {least : Nat} {s : String} (h : least ≤ s.length) :
    text least (.text s) = .ok s :=
  (text_eq_ok_iff rfl).mpr ⟨rfl, h⟩

theorem text_one_text {s : String} (h : s ≠ "") : text 1 (.text s) = .ok s :=
  text_text (Nat.one_le_iff_ne_zero.mpr (mt String.length_eq_zero_iff.mp h))

theorem textOrNull_ofText? (s : Option String) : textOrNull (.ofText? s) = .ok s := by
  cases s with
  | none => rfl
  | some s => exact congrArg (Except.map some) (text_text (Nat.zero_le _))

theorem texts_texts (ss : List String) : texts (.list (ss.map .text)) = .ok ss := by
  have hjson : (Value.list (ss.map .text)).isJson = true := by
    refine (Value.itemsTreeOf_iff _).mpr fun v hv => ?_
    obtain ⟨s, -, rfl⟩ := List.mem_map.mp hv
    rfl
  exact (texts_eq_ok_iff hjson).mpr rfl

/-! ### Mappings from texts -/

variable {read : Value → Reading β} {fs : Entries String β} {v : Value}

/-- **What is read as a mapping** has each key once, and its values are read of values. -/
theorem exists_of_mapping (h : mapping read v = .ok fs) : Entries.Distinct fs ∧
    ∃ es, v = .map es ∧ ∀ f ∈ fs, ∃ e ∈ es, read e.2 = .ok f.2 := by
  unfold mapping at h
  split at h
  · next es =>
    obtain ⟨pairs, hall, rfl⟩ := map_eq_ok_iff.mp h
    refine ⟨Entries.distinct_ofPairs pairs, es, rfl, fun f hf => ?_⟩
    have hread : (.ok f : Reading _) ∈ pairs.map Except.ok :=
      List.mem_map.mpr ⟨f, Entries.mem_of_mem_ofPairs hf, rfl⟩
    rw [← all_eq_ok_iff.mp hall] at hread
    obtain ⟨e, he, hboth⟩ := List.mem_map.mp hread
    exact ⟨e, he, under_eq_ok_iff.mp (both_eq_ok_iff.mp hboth).2⟩
  · simp [flawed] at h

/-- **A mapping from texts** is read value by value. -/
theorem mapping_object {ps : Entries String γ} {f : γ → Value} {g : γ → β}
    (hd : Entries.Distinct ps) (h : ∀ p ∈ ps, read (f p.2) = .ok (g p.2)) :
    mapping read (.object (ps.mapValues f)) = .ok (ps.mapValues g) := by
  have hall : all ((ps.map fun p => (Scalar.text p.1, f p.2)).map fun e =>
      (key e.1).both ((read e.2).under (step e.1))) = .ok (ps.mapValues g) := by
    rw [all_eq_ok_iff, List.map_map, Entries.mapValues, List.map_map]
    refine List.map_congr_left fun p hp => ?_
    exact both_eq_ok_iff.mpr ⟨rfl, under_eq_ok_iff.mpr (h p hp)⟩
  have hdistinct : Entries.Distinct (ps.mapValues g : Entries String β) := by
    rwa [Entries.Distinct, Entries.keys_mapValues]
  have hentries : (Entries.mapValues f ps).map (fun e => (Scalar.text e.1, e.2)) =
      ps.map fun p => (Scalar.text p.1, f p.2) := by
    rw [Entries.mapValues, List.map_map]
    rfl
  rw [Value.object, hentries, mapping, hall, Except.map, Entries.ofPairs_eq_self hdistinct]

/-! ### Mappings from texts to anything -/

variable {test : Scalar → Bool}

/-- What is read as a mapping to anything is a tree if the document is one. -/
theorem isTree_of_fields {fs : Fields} (hv : v.isTreeOf test = true) (h : fields v = .ok fs) :
    (Value.map fs).isTreeOf test = true := by
  obtain ⟨ps, hps, rfl⟩ := map_eq_ok_iff.mp h
  obtain ⟨hd, es, rfl, hread⟩ := exists_of_mapping hps
  refine Value.isTreeOf_object hd fun p hp => ?_
  obtain ⟨e, he, heq⟩ := hread p hp
  have hvalue : e.2 = p.2 := Except.ok.inj heq
  exact hvalue ▸ (((Value.isTreeOf_map_iff es).mp hv).2 e he).2

/-- A mapping with texts for keys is one from texts. -/
theorem exists_eq_object {fs : Fields} (h : ∀ e ∈ fs, e.1.isText = true) :
    ∃ ps : Entries String Value, fs = ps.map fun p => (.text p.1, p.2) := by
  refine ⟨fs.map fun e => (e.1.plain, e.2), ?_⟩
  rw [List.map_map]
  refine (List.map_id fs).symm.trans (List.map_congr_left fun e he => ?_)
  obtain ⟨k, v⟩ := e
  obtain ⟨s, rfl⟩ := Scalar.isText_iff.mp (h _ he)
  rfl

/-- **An object is read as it is.** -/
theorem fields_map {fs : Fields} (h : (Value.map fs).isTreeOf test = true) :
    fields (.map fs) = .ok fs := by
  obtain ⟨hd, hvalues⟩ := (Value.isTreeOf_map_iff fs).mp h
  obtain ⟨ps, rfl⟩ := exists_eq_object fun e he => (hvalues e he).1
  have hdistinct : Entries.Distinct ps := by
    refine List.Nodup.of_map Scalar.text ?_
    simpa [Entries.Distinct, Entries.keys, Function.comp_def] using hd
  have hread : mapping anything (.object (ps.mapValues id)) = .ok (ps.mapValues id) :=
    mapping_object hdistinct fun _ _ => rfl
  have hself : (ps.mapValues id : Entries String Value) = ps := List.map_id ps
  rw [hself] at hread
  exact map_eq_ok_iff.mpr ⟨ps, hread, rfl⟩

end Reading

end NestedTables
