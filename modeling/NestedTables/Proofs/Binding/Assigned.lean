import NestedTables.Proofs.Binding.Built
import NestedTables.Proofs.Compile.Replay

/-!
# What relations assign

A relation assigns references to columns: it says of a column to which other column it refers
(`Relation.Assigns`). The foreign keys of a model are collected from all its relations, and while
they are collected a column may be assigned more than once. What comes out is simple to say for one
table (`ForeignKeys.ofTable_ofModel`): its assignments, put into a mapping one after the other. So a
column is there once, in the place where it was assigned first, and it refers to what it was
assigned last.
-/

namespace NestedTables

variable {η : Type}

/-! ### Keys of what is put together -/

namespace Entries

variable {α : Type}

/-- Keys are there in the order in which they come first. -/
theorem keys_foldl_put (ps es : Entries String α) {earlier : List String}
    (h : keys es = earlier.eraseDups) :
    keys (ps.foldl (fun es e => put e.1 e.2 es) es) = (earlier ++ keys ps).eraseDups := by
  induction ps generalizing es earlier with
  | nil => simpa [keys] using h
  | cons p ps ih =>
    have hput : keys (put p.1 p.2 es) = (earlier ++ [p.1]).eraseDups := by
      rw [Stage.eraseDups_append_singleton, keys_put, h]
      simp only [List.mem_eraseDups]
    rw [List.foldl_cons, ih _ hput, List.append_assoc]
    rfl

/-- **The keys of what is put together from pairs**, each where it comes first. -/
theorem keys_ofPairs (ps : Entries String α) : keys (ofPairs ps) = (keys ps).eraseDups :=
  keys_foldl_put ps [] List.eraseDups_nil.symm

end Entries

/-! ### One relation -/

/-- What is assigned to which column. A text that is no reference is neither assigned nor referred
to. -/
def ForeignKeys.assignment? (p : String × String) : Option (ColumnRef × String) :=
  match ColumnRef.ofText? p.1, ColumnRef.ofText? p.2 with
  | some column, some _ => some (column, p.2)
  | _, _ => none

theorem ForeignKeys.assignment?_eq_some_iff {p : String × String} {column : ColumnRef}
    {text : String} : assignment? p = some (column, text) ↔
      ColumnRef.ofText? p.1 = some column ∧ p.2 = text ∧
        (ColumnRef.ofText? text).isSome = true := by
  unfold assignment?
  split
  · next hsource htarget =>
    simp only [Option.some.injEq, Prod.mk.injEq, hsource, and_congr_right_iff, iff_self_and]
    rintro - rfl
    rw [htarget]
    rfl
  · next hnone =>
    simp only [reduceCtorEq, false_iff, not_and]
    rintro hsource rfl hsome
    obtain ⟨target, htarget⟩ := Option.isSome_iff_exists.mp hsome
    exact hnone column target hsource htarget

namespace Relation

variable (one many : Value) (r : Relation η)

/-- Whether a relation makes a column refer to another one, both as they are written. A relation
through a join table assigns the two columns of that; any other relation assigns its own column if
its kind is `one`, and the column of its target if its kind is `many`. A kind that is both counts as
`one`. -/
inductive Assigns : String → String → Prop
  | toOne {own : String} (hthrough : r.through = none) (hown : r.joinFrom = some own)
      (hkind : r.kind.same one = true) : Assigns own r.joinTo
  | toMany {own : String} (hthrough : r.through = none) (hown : r.joinFrom = some own)
      (hother : r.kind.same one = false) (hkind : r.kind.same many = true) : Assigns r.joinTo own
  | source {t : Through} {own : String} (hthrough : r.through = some t)
      (hown : r.joinFrom = some own) : Assigns t.source own
  | target {t : Through} (hthrough : r.through = some t) : Assigns t.target r.joinTo

/-- The columns that a relation assigns, one after the other, with what they are to refer to. -/
def assignments : Entries ColumnRef String :=
  (ForeignKeys.saidBy one many r).filterMap ForeignKeys.assignment?

variable {one many r}

theorem mem_assignments {column : ColumnRef} {text : String} :
    (column, text) ∈ r.assignments one many ↔
      ∃ source, (source, text) ∈ ForeignKeys.saidBy one many r ∧
        ColumnRef.ofText? source = some column ∧ (ColumnRef.ofText? text).isSome = true := by
  simp only [assignments, List.mem_filterMap, ForeignKeys.assignment?_eq_some_iff]
  constructor
  · rintro ⟨⟨source, _⟩, hsaid, hsource, rfl, htext⟩
    exact ⟨source, hsaid, hsource, htext⟩
  · rintro ⟨source, hsaid, hsource, htext⟩
    exact ⟨(source, text), hsaid, hsource, rfl, htext⟩

/-- What is said of two references is assigned: a relation that has no column of its own says it of
the empty text, which is no reference. -/
theorem assigns_of_said {source text : String}
    (hsaid : (source, text) ∈ ForeignKeys.saidBy one many r)
    (hsource : (ColumnRef.ofText? source).isSome = true)
    (htext : (ColumnRef.ofText? text).isSome = true) : r.Assigns one many source text := by
  have hown : ∀ own, r.joinFrom.getD "" = own → (ColumnRef.ofText? own).isSome = true →
      r.joinFrom = some own := by
    rintro _ rfl hsome
    cases hfrom : r.joinFrom with
    | none =>
      rw [hfrom] at hsome
      exact absurd hsome (by decide)
    | some own => rfl
  unfold ForeignKeys.saidBy at hsaid
  simp only at hsaid
  split at hsaid
  · next t hthrough =>
    rcases List.mem_cons.mp hsaid with heq | hsaid
    · obtain ⟨rfl, rfl⟩ := Prod.mk.inj heq
      exact .source hthrough (hown _ rfl htext)
    · obtain ⟨rfl, rfl⟩ := Prod.mk.inj (List.mem_singleton.mp hsaid)
      exact .target hthrough
  · next hthrough =>
    split at hsaid
    · next hone =>
      obtain ⟨rfl, rfl⟩ := Prod.mk.inj (List.mem_singleton.mp hsaid)
      exact .toOne hthrough (hown _ rfl hsource) hone
    · next hone =>
      split at hsaid
      · next hmany =>
        obtain ⟨rfl, rfl⟩ := Prod.mk.inj (List.mem_singleton.mp hsaid)
        exact .toMany hthrough (hown _ rfl htext) (Bool.eq_false_iff.mpr hone) hmany
      · cases hsaid

theorem Assigns.said {source text : String} (h : r.Assigns one many source text) :
    (source, text) ∈ ForeignKeys.saidBy one many r := by
  cases h with
  | toOne hthrough hown hkind => simp [ForeignKeys.saidBy, hthrough, hown, hkind]
  | toMany hthrough hown hother hkind => simp [ForeignKeys.saidBy, hthrough, hown, hother, hkind]
  | source hthrough hown => simp [ForeignKeys.saidBy, hthrough, hown]
  | target hthrough => simp [ForeignKeys.saidBy, hthrough]

/-- **What a relation assigns**, as far as both texts are references. -/
theorem mem_assignments_iff {column : ColumnRef} {text : String} :
    (column, text) ∈ r.assignments one many ↔
      ∃ source, r.Assigns one many source text ∧ ColumnRef.ofText? source = some column ∧
        (ColumnRef.ofText? text).isSome = true := by
  rw [mem_assignments]
  constructor
  · rintro ⟨source, hsaid, hsource, htext⟩
    exact ⟨source, assigns_of_said hsaid (by rw [hsource]; rfl) htext, hsource, htext⟩
  · rintro ⟨source, hassigns, hsource, htext⟩
    exact ⟨source, hassigns.said, hsource, htext⟩

end Relation

/-! ### All relations of a model -/

namespace ForeignKeys

/-- The assignments of all relations of some tables, table by table and relation by relation. -/
def assignments (one many : Value) (tables : List (Descriptor η)) : Entries ColumnRef String :=
  tables.flatMap fun d => d.relations.flatMap fun e => e.2.assignments one many

/-- The assignments to the columns of one table. -/
def within (table : String) (as : Entries ColumnRef String) : Entries String String :=
  as.filterMap fun a => if a.1.table = table then some (a.1.column, a.2) else none

theorem within_append (table : String) (as as' : Entries ColumnRef String) :
    within table (as ++ as') = within table as ++ within table as' :=
  List.filterMap_append

theorem get?_within (table column : String) (as : Entries ColumnRef String) :
    Entries.get? column (within table as) = Entries.get? ⟨table, column⟩ as := by
  induction as with
  | nil => rfl
  | cons a as ih =>
    obtain ⟨⟨table', column'⟩, text⟩ := a
    by_cases htable : table' = table
    · have hcons : within table ((⟨table', column'⟩, text) :: as) =
          (column', text) :: within table as := by
        simp [within, htable]
      rw [hcons, Entries.get?_cons, Entries.get?_cons, ih]
      simp [htable]
    · have hcons : within table ((⟨table', column'⟩, text) :: as) = within table as := by
        simp [within, htable]
      rw [hcons, Entries.get?_cons, ih, if_neg (by simp [htable])]

/-- Saying something of a column matters to the table of the column only. -/
theorem ofTable_add (keys : ForeignKeys) (p : String × String) (table : String) :
    (keys.add p.1 p.2).ofTable table =
      (within table (assignment? p).toList).foldl (fun es e => es.put e.1 e.2)
        (keys.ofTable table) := by
  unfold ForeignKeys.add assignment?
  cases ColumnRef.ofText? p.1 with
  | none => rfl
  | some r =>
    cases ColumnRef.ofText? p.2 with
    | none => rfl
    | some _ =>
      simp only [ofTable_put, Option.toList_some]
      by_cases htable : r.table = table
      · simp [within, htable]
      · simp [within, htable]

/-- **The foreign keys of a table** are its assignments, put together one after the other. -/
theorem ofTable_ofModel (one many : Value) (tables : List (Descriptor η)) (table : String) :
    (ofModel one many tables).ofTable table =
      Entries.ofPairs (within table (assignments one many tables)) := by
  have hfold : ∀ (said : List (String × String)) (keys : ForeignKeys),
      (said.foldl (fun keys p => keys.add p.1 p.2) keys).ofTable table =
        (within table (said.filterMap assignment?)).foldl (fun es e => es.put e.1 e.2)
          (keys.ofTable table) := by
    intro said
    induction said with
    | nil => exact fun _ => rfl
    | cons p said ih =>
      intro keys
      have hcons : (p :: said).filterMap assignment? =
          (assignment? p).toList ++ said.filterMap assignment? := by
        cases h : assignment? p <;> simp [h]
      rw [List.foldl_cons, ih, ofTable_add, hcons, within_append, List.foldl_append]
  rw [ofModel, hfold, Entries.ofPairs]
  simp only [assignments, Relation.assignments, List.filterMap_flatMap]
  rfl

/-- **What a column refers to** is what has been assigned to it last. -/
theorem get?_ofTable_ofModel (one many : Value) (tables : List (Descriptor η)) (c : ColumnRef) :
    Entries.get? c.column ((ofModel one many tables).ofTable c.table) =
      Entries.get? c (assignments one many tables).reverse := by
  have hreverse : (within c.table (assignments one many tables)).reverse =
      within c.table (assignments one many tables).reverse := by
    rw [within, within, List.filterMap_reverse]
  rw [ofTable_ofModel, Entries.get?_ofPairs, hreverse, get?_within]

/-- The columns of a table that are assigned something, each where that happens first. -/
def assigned (table : String) (as : Entries ColumnRef String) : List String :=
  (Entries.keys (within table as)).eraseDups

theorem keys_ofTable_ofModel (one many : Value) (tables : List (Descriptor η)) (table : String) :
    Entries.keys ((ofModel one many tables).ofTable table) =
      assigned table (assignments one many tables) := by
  rw [ofTable_ofModel, Entries.keys_ofPairs, assigned]

end ForeignKeys

end NestedTables
