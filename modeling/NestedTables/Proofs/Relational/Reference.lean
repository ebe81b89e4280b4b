import NestedTables.Proofs.Relational.State

/-!
# One way to read a reference

References to columns are read in several places, which do not all ask the same question. A
reference as a whole is the text of two parts with a dot in between, and there is one way to read it
(`ColumnRef.ofText?_eq_some_iff_parts`). A join table only looks for what stands before the first
dot of its source, and asks for no more than a number of characters. The id path of a table is
written without asking whether it can be read.

Where a text is a reference, they agree (`ColumnRef.read_uniquely`).
-/

namespace NestedTables

namespace ColumnRef

variable {s : String} {r : ColumnRef}

/-! ### Cutting a text at its dots -/

/-- A list has one part more than it has marks at which it is cut. -/
theorem length_splitOn {α : Type} [BEq α] [LawfulBEq α] (mark : α) (as : List α) :
    (as.splitOn mark).length = as.count mark + 1 := by
  induction as with
  | nil => simp
  | cons a as ih =>
    rw [List.splitOn_cons_eq_if_modifyHead]
    by_cases h : a = mark
    · subst h
      simp [ih]
    · simp [h, ih, List.count_cons_of_ne h]

theorem toList_written (r : ColumnRef) :
    r.written.toList = r.table.toList ++ '.' :: r.column.toList := by
  simp [written]

/-- **A text is read as a reference** exactly when it has two parts between its dots, and neither of
them is empty. -/
theorem ofText?_eq_some_iff_parts : ofText? s = some r ↔
    s.toList.splitOn '.' = [r.table.toList, r.column.toList] ∧ r.table ≠ "" ∧ r.column ≠ "" := by
  rw [ofText?_eq_some_iff]
  constructor
  · rintro ⟨rfl, ⟨htable, htableDot⟩, ⟨hcolumn, hcolumnDot⟩⟩
    refine ⟨?_, htable, hcolumn⟩
    rw [toList_written, List.splitOn_append_cons_self_of_not_mem htableDot,
      List.splitOn_eq_singleton hcolumnDot]
  · rintro ⟨hparts, htable, hcolumn⟩
    have hlist : s.toList = r.written.toList := by
      have hjoined : ['.'].intercalate (s.toList.splitOn '.') = s.toList :=
        List.intercalate_splitOn '.'
      rw [← hjoined, hparts, toList_written]
      simp [List.intercalate]
    -- two parts leave no dot to be in either of them
    have hcount := length_splitOn '.' s.toList
    rw [hparts, hlist, toList_written, List.count_append, List.count_cons_self] at hcount
    simp only [List.length_cons, List.length_nil] at hcount
    have htableDot : r.table.toList.count '.' = 0 := by omega
    have hcolumnDot : r.column.toList.count '.' = 0 := by omega
    exact ⟨String.toList_injective hlist, ⟨htable, List.count_eq_zero.mp htableDot⟩,
      ⟨hcolumn, List.count_eq_zero.mp hcolumnDot⟩⟩

/-! ### What reads and writes references -/

theorem isColumnRef_iff {v : Value} :
    v.isColumnRef = true ↔ ∃ s r, v = .text s ∧ ofText? s = some r := by
  unfold Value.isColumnRef
  rw [Option.any_eq_true]
  simp only [Option.isSome_iff_exists, Value.text?_eq_some_iff, exists_and_left]

/-- What stands before the first dot of a reference is its table. -/
theorem tablePart_of_ofText? (h : ofText? s = some r) : tablePart s = r.table := by
  obtain ⟨rfl, ⟨-, htable⟩, -⟩ := (ofText?_eq_some_iff s r).mp h
  have hno : ∀ c ∈ r.table.toList, decide (c ≠ '.') = true := fun c hc =>
    decide_eq_true (ne_of_mem_of_not_mem hc htable)
  rw [tablePart, toList_written, List.takeWhile_append_of_pos hno]
  simp

/-- A reference is long enough for a join table. -/
theorem leastReference_le_of_ofText? (h : ofText? s = some r) :
    Through.leastReference ≤ s.length := by
  obtain ⟨rfl, htable, hcolumn⟩ := (ofText?_eq_some_iff s r).mp h
  exact leastReference_le_length htable hcolumn

theorem ofText?_written_of_isPart (htable : IsPart r.table) (hcolumn : IsPart r.column) :
    ofText? r.written = some r :=
  (ofText?_eq_some_iff _ r).mpr ⟨rfl, htable, hcolumn⟩

end ColumnRef

/-- Going down from a table does not change its id path. -/
theorem Context.idPath_foldl_child (ctx : Context) (keys : List String) :
    (keys.foldl child ctx).idPath = ctx.idPath := by
  induction keys generalizing ctx with
  | nil => rfl
  | cons key keys ih => exact ih (ctx.child key)

/-- A join table is read from references. -/
theorem Through.ofValue_dump_of_references {t : Through} {source target : ColumnRef}
    (hsource : ColumnRef.ofText? t.source = some source)
    (htarget : ColumnRef.ofText? t.target = some target) : ofValue t.dump = .ok t :=
  ofValue_dump ⟨ColumnRef.leastReference_le_of_ofText? hsource,
    ColumnRef.leastReference_le_of_ofText? htarget⟩

namespace ColumnRef

/-- **References are read in one way.** A text is read as a table and a column exactly when these
are not empty, have no dots, and make the text with a dot in between; they are then its parts
between all its dots, and there is no such text otherwise. A value is a reference if it is a text
that is read. What is read is long enough for a join table, as both of its ends, and the table that
the join table finds is the one that is read. The id paths of tables, of all the contexts below them
and of their descriptors are read again, if they are made of parts that can be read. -/
theorem read_uniquely :
    (∀ (s : String) (r : ColumnRef),
      (ofText? s = some r ↔ s = r.table ++ "." ++ r.column ∧ IsPart r.table ∧ IsPart r.column) ∧
      (ofText? s = some r ↔ s.toList.splitOn '.' = [r.table.toList, r.column.toList] ∧
        r.table ≠ "" ∧ r.column ≠ "")) ∧
    (∀ s : String, ofText? s = none ↔
      ∀ table column, IsPart table → IsPart column → s ≠ table ++ "." ++ column) ∧
    (∀ v : Value, v.isColumnRef = true ↔ ∃ s r, v = .text s ∧ ofText? s = some r) ∧
    (∀ (s : String) (r : ColumnRef), ofText? s = some r →
      Reading.text Through.leastReference (.text s) = .ok s ∧
      (∀ t : Through, t.source = s → t.table = r.table) ∧
      ∀ (target : String) (extra : List String), (∃ r', ofText? target = some r') →
        Through.ofValue (Through.dump ⟨s, target, extra⟩) = .ok ⟨s, target, extra⟩) ∧
    ∀ table column, IsPart table → IsPart column →
      (∀ keys : List String, ofText? (keys.foldl Context.child (.ofTable table column)).idPath =
        some ⟨table, column⟩) ∧
      ∀ (η : Type) (d : Descriptor η), d.tableName = table → d.idColumn = column →
        ofText? d.idPath = some ⟨table, column⟩ := by
  refine ⟨fun s r => ⟨ofText?_eq_some_iff s r, ofText?_eq_some_iff_parts⟩, fun s => ?_,
    fun v => isColumnRef_iff, fun s r h => ⟨?_, fun t ht => ?_, fun target extra ht => ?_⟩,
    fun table column htable hcolumn => ⟨fun keys => ?_, fun η d hname hid => ?_⟩⟩
  · rw [ofText?_eq_none_iff]
    constructor
    · exact fun hnot table column htable hcolumn heq =>
        hnot ⟨⟨table, column⟩, heq, htable, hcolumn⟩
    · rintro hne ⟨r, heq, htable, hcolumn⟩
      exact hne r.table r.column htable hcolumn heq
  · exact Reading.text_text (leastReference_le_of_ofText? h)
  · rw [Through.table, ht]
    exact tablePart_of_ofText? h
  · obtain ⟨r', hr'⟩ := ht
    exact Through.ofValue_dump_of_references h hr'
  · rw [Context.idPath_foldl_child]
    exact ofText?_written_of_isPart (r := ⟨table, column⟩) htable hcolumn
  · rw [Descriptor.idPath, hname, hid]
    exact ofText?_written_of_isPart (r := ⟨table, column⟩) htable hcolumn

/-- The id path of the orders is read on its lines too; a column without a table, and a reference of
three parts, are not. -/
theorem read_uniquely_orders :
    IsPart "Orders" ∧ IsPart "id" ∧
      ofText? (Context.child (.ofTable "Orders" "id") "lines").idPath = some ⟨"Orders", "id"⟩ ∧
      (∀ t : Through, t.source = "Orders.id" → t.table = "Orders") ∧
      ofText? ".id" = none ∧ ofText? "a.b.c" = none := by
  have horders : IsPart "Orders" := ⟨by decide, by decide⟩
  have hid : IsPart "id" := ⟨by decide, by decide⟩
  obtain ⟨hread, -, -, hthrough, hpaths⟩ := read_uniquely
  have hpath : ofText? "Orders.id" = some ⟨"Orders", "id"⟩ :=
    (hread _ _).1.mpr ⟨by decide, horders, hid⟩
  exact ⟨horders, hid, (hpaths _ _ horders hid).1 ["lines"], (hthrough _ _ hpath).2.1, by decide,
    by decide⟩

end ColumnRef

end NestedTables
