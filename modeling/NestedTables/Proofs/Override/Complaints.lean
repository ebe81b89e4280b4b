import NestedTables.Override.Rules

/-!
# The complaints of each rule

Each rule for overrides finds complaints of its own kinds, and shows in them what it has looked at.
What is said of all complaints (whether they are errors, which group they belong to, whether they
can be written) is read off these kinds, and does not ask again under which conditions a rule finds
something.
-/

namespace NestedTables

namespace Override

variable {settings : Settings} {node : Fields} {tables : List String} {c : Complaint}

/-! ### Rules for values -/

/-- What is found in a textual override: it is no text with something on it, or no reference. -/
theorem textComplaint?_cases {o : Override} (h : textComplaint? settings o node = some c) :
    (∃ v, settings.override? o node = some v ∧ c = .notText (settings.key o) v) ∨
      ∃ s, c = .notReference (settings.key o) s := by
  unfold textComplaint? at h
  split at h
  · simp at h
  · next hv =>
    split at h
    · exact Or.inl ⟨_, hv, (Option.some.inj h).symm⟩
    · split at h
      · exact Or.inr ⟨_, (Option.some.inj h).symm⟩
      · simp at h
  · next hv => exact Or.inl ⟨_, hv, (Option.some.inj h).symm⟩

/-- What is found in a title: it is no text. -/
theorem titleComplaint?_cases (h : titleComplaint? settings node = some c) :
    c = .titleNotText (node.value "title") (node.value identityKey) := by
  unfold titleComplaint? at h
  split at h
  · split at h
    · simp at h
    · simp at h
    · exact (Option.some.inj h).symm
  · simp at h

/-- What is found in a key: it is not known. -/
theorem keyComplaint?_cases {k : Scalar} (h : keyComplaint? settings k = some c) :
    ∃ key, k = .text key ∧ c = .unknownKey key := by
  unfold keyComplaint? at h
  split at h
  · split at h
    · exact ⟨_, rfl, (Option.some.inj h).symm⟩
    · simp at h
  · simp at h

/-- What is found in a node by the rules for values. -/
theorem mem_valueComplaints_iff : c ∈ valueComplaints settings node ↔
    ((∃ o ∈ textual, textComplaint? settings o node = some c) ∨
      titleComplaint? settings node = some c) ∨
        ∃ e ∈ node, keyComplaint? settings e.1 = some c := by
  simp only [valueComplaints, List.mem_append, List.mem_filterMap, Option.mem_toList]

/-! ### Rules for joins -/

/-- What is found in a join table: it is no mapping of the right form, or its ends are no
references, or not into one table, or not into a table of the schema. -/
theorem throughComplaint?_cases {v : Value} (h : throughComplaint? settings tables v = some c) :
    (∃ problems, c = .throughMalformed (settings.key .joinThrough) problems v) ∨
      (∃ t, c = .throughNotReferences t) ∨ (∃ source target, c = .throughTwoTables source target) ∨
        ∃ table, c = .throughUnknownTable table := by
  unfold throughComplaint? at h
  split at h
  · exact Or.inl ⟨_, (Option.some.inj h).symm⟩
  · refine Or.inr ?_
    split at h
    · refine Or.inr ?_
      split at h
      · exact Or.inl ⟨_, _, (Option.some.inj h).symm⟩
      · split at h
        · exact Or.inr ⟨_, (Option.some.inj h).symm⟩
        · simp at h
    · exact Or.inl ⟨_, (Option.some.inj h).symm⟩

/-- What is found in a node by the rules for joins: two warnings, and what is wrong with the join
table. -/
theorem joinComplaints_cases (h : c ∈ joinComplaints settings tables node) :
    c = .joinIgnored ∨ (∃ joinTo through, c = .joinConflict joinTo through) ∨
      ∃ v, settings.override? .joinThrough node = some v ∧
        throughComplaint? settings tables v = some c := by
  unfold joinComplaints at h
  simp only [] at h
  split at h
  · simp at h
  · simp only [List.mem_append, Option.mem_toList] at h
    rcases h with (h | h) | h
    · split at h
      · simp at h
      · exact Or.inl (by simpa using h)
    · split at h
      · exact Or.inr (Or.inl ⟨_, _, List.mem_singleton.mp h⟩)
      · simp at h
    · exact Or.inr (Or.inr (Option.bind_eq_some_iff.mp h))

end Override

end NestedTables
