import NestedTables.Document.Value

/-!
# References to columns

A column is referred to as `table.column`: two texts that are not empty and hold no dot,
with a dot between them. Both directions are here, and `ColumnRef.ofText?_eq_some_iff` says
that they fit: a text is read as a reference exactly when it is written by one.

The *id path* of a table is the reference to its identity column. A foreign-key column is
named after the id path it refers to, with the dots flattened to underscores.
-/

namespace NestedTables

/-- A reference to a column of a table. -/
structure ColumnRef where
  table : String
  column : String
deriving DecidableEq, Repr

namespace ColumnRef

/-- A text that can be a part of a reference. -/
def IsPart (s : String) : Prop :=
  s ≠ "" ∧ '.' ∉ s.toList

/-- The table, a dot and the column. -/
def written (r : ColumnRef) : String :=
  r.table ++ "." ++ r.column

/-- Reads the characters before the first dot and those after it. -/
def split? (cs : List Char) : Option (List Char × List Char) :=
  match cs.takeWhile (· ≠ '.'), cs.dropWhile (· ≠ '.') with
  | _, [] => none
  | before, _ :: after =>
    if before ≠ [] ∧ after ≠ [] ∧ '.' ∉ after then some (before, after) else none

/-- The reference that a text writes. -/
def ofText? (s : String) : Option ColumnRef :=
  (split? s.toList).map fun (t, c) => ⟨String.ofList t, String.ofList c⟩

/-- What is said of a text that is no reference. -/
def refusal (s : String) : String :=
  s!"'{s}' is not a 'table.column' reference."

/-- The part of a text before its first dot. -/
def tablePart (s : String) : String :=
  String.ofList (s.toList.takeWhile (· ≠ '.'))

/-- A text with its dots turned into underscores: the name of the column that refers to an
id path. -/
def flatten (s : String) : String :=
  String.ofList (s.toList.map fun c => if c = '.' then '_' else c)

theorem split?_append {t c : List Char} (ht : t ≠ []) (htd : '.' ∉ t) (hc : c ≠ [])
    (hcd : '.' ∉ c) : split? (t ++ '.' :: c) = some (t, c) := by
  have hall : ∀ x ∈ t, decide (x ≠ '.') = true := by
    intro x hx
    simp only [decide_eq_true_eq]
    rintro rfl
    exact htd hx
  have hdrop : (t ++ '.' :: c).dropWhile (· ≠ '.') = '.' :: c := by
    rw [List.dropWhile_append_of_pos hall]
    simp
  have htake : (t ++ '.' :: c).takeWhile (· ≠ '.') = t := by
    rw [List.takeWhile_append_of_pos hall]
    simp
  simp only [split?, hdrop, htake]
  simp [ht, hc, hcd]

theorem eq_append_of_split? {cs t c : List Char} (h : split? cs = some (t, c)) :
    cs = t ++ '.' :: c ∧ t ≠ [] ∧ '.' ∉ t ∧ c ≠ [] ∧ '.' ∉ c := by
  unfold split? at h
  split at h
  · simp at h
  · next d after hd =>
    split at h
    · next hcond =>
      simp only [Option.some.injEq, Prod.mk.injEq] at h
      obtain ⟨rfl, rfl⟩ := h
      have hsplit := List.takeWhile_append_dropWhile (p := (· ≠ '.')) (l := cs)
      have hdot : d = '.' := by
        have := List.head?_dropWhile_not (· ≠ '.') cs
        rw [hd] at this
        simpa using this
      subst hdot
      refine ⟨?_, hcond.1, ?_, hcond.2.1, hcond.2.2⟩
      · rw [hd] at hsplit
        exact hsplit.symm
      · intro hm
        have := List.all_eq_true.mp (List.all_takeWhile (p := (· ≠ '.')) (l := cs)) _ hm
        simp at this
    · simp at h

/-- **A text is read as a reference exactly when that reference writes it** and both parts
can be parts. -/
theorem ofText?_eq_some_iff (s : String) (r : ColumnRef) :
    ofText? s = some r ↔ s = r.written ∧ IsPart r.table ∧ IsPart r.column := by
  constructor
  · intro h
    obtain ⟨⟨t, c⟩, hs, rfl⟩ := Option.map_eq_some_iff.mp h
    obtain ⟨heq, ht, htd, hc, hcd⟩ := eq_append_of_split? hs
    refine ⟨?_, ⟨?_, by simpa using htd⟩, ⟨?_, by simpa using hcd⟩⟩
    · apply String.toList_injective
      simp [written, heq]
    · intro e
      exact ht (by simpa using congrArg String.toList e)
    · intro e
      exact hc (by simpa using congrArg String.toList e)
  · rintro ⟨rfl, ⟨ht, htd⟩, ⟨hc, hcd⟩⟩
    have hne : ∀ {u : String}, u ≠ "" → u.toList ≠ [] := by
      intro u hu e
      exact hu (String.toList_injective (by simpa using e))
    have := split?_append (hne ht) htd (hne hc) hcd
    have hl : r.written.toList = r.table.toList ++ '.' :: r.column.toList := by simp [written]
    rw [ofText?, hl, this]
    simp

end ColumnRef

/-- Whether a value is a text that can be read as a reference. -/
def Value.isColumnRef (v : Value) : Bool :=
  v.text?.any fun s => (ColumnRef.ofText? s).isSome

end NestedTables
