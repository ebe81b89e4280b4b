import NestedTables.Proofs.Binding.Assigned
import NestedTables.Proofs.Compile.TableNames

/-!
# Building late, and building again

A database is built whenever something of it is asked for that is not there. Building goes through
the received tables in their order and adds those that are missing, each as a whole, behind what is
there; at the first one that cannot be built it stops. So there are two ways in which it can end
(`Catalog.Ends`), and both are read off the list of the missing tables.

What is there afterwards decides what is missing then: nothing, or the table that could not be built
and those after it. This is why building again changes nothing and ends in the same way
(`Catalog.build_build`), as long as nothing has been received in between.
-/

namespace NestedTables

namespace Catalog

variable {η : Type} {keys : ForeignKeys} {tables : Entries String (Descriptor η)}
  {catalog : Catalog}

/-! ### What is missing -/

/-- The tables that a catalogue does not have, in their order. -/
def missing (catalog : Catalog) (tables : Entries String (Descriptor η)) :
    Entries String (Descriptor η) :=
  tables.filter fun e => !catalog.has e.1

theorem has_append (catalog built : Catalog) (table : String) :
    (catalog ++ built).has table = (catalog.has table || built.has table) := by
  simp [Entries.has, Entries.get?_append]

/-- Tables that have been added are no longer missing. -/
theorem missing_append (catalog built : Catalog) (tables : Entries String (Descriptor η)) :
    missing (catalog ++ built) tables =
      (catalog.missing tables).filter fun e => !built.has e.1 := by
  rw [missing, missing, List.filter_filter]
  refine List.filter_congr fun e _ => ?_
  rw [has_append, Bool.not_or, Bool.and_comm]

/-! ### How building ends -/

/-- Whether a table has been built under its name, and as a whole. -/
structure Builds (keys : ForeignKeys) (e : String × Descriptor η) (t : String × List Column) :
    Prop where
  name : t.1 = e.1
  columns : e.2.build (keys.ofTable e.1) = .ok t.2

theorem Builds.keys_eq {built : Catalog} (h : List.Forall₂ (Builds keys) tables built) :
    Entries.keys built = Entries.keys tables := by
  induction h with
  | nil => rfl
  | cons hbuilds _ ih => exact congrArg₂ List.cons hbuilds.name ih

/-- The two ways in which building ends: all missing tables have been added; or those before one
that cannot be built. -/
inductive Ends (keys : ForeignKeys) (missing : Entries String (Descriptor η)) (catalog : Catalog) :
    Catalog × Except BuildFault Unit → Prop
  | finished {built : Catalog} (h : List.Forall₂ (Builds keys) missing built) :
      Ends keys missing catalog (catalog ++ built, .ok ())
  | failed {done rest : Entries String (Descriptor η)} {failing : String × Descriptor η}
      {built : Catalog} {fault : BuildFault} (hmissing : missing = done ++ failing :: rest)
      (h : List.Forall₂ (Builds keys) done built)
      (hfault : failing.2.build (keys.ofTable failing.1) = .error fault) :
      Ends keys missing catalog (catalog ++ built, .error fault)

/-- A table that is built comes before all others. -/
theorem Ends.cons {e : String × Descriptor η} {t : String × List Column} (hbuilds : Builds keys e t)
    {missing : Entries String (Descriptor η)} {out : Catalog × Except BuildFault Unit}
    (h : Ends keys missing (catalog ++ [t]) out) : Ends keys (e :: missing) catalog out := by
  cases h with
  | finished h =>
    rw [List.append_assoc]
    exact .finished (.cons hbuilds h)
  | failed hmissing h hfault =>
    rw [List.append_assoc]
    exact .failed (congrArg (List.cons e) hmissing) (.cons hbuilds h) hfault

/-- **Building ends in one of the two ways.** -/
theorem ends_build (keys : ForeignKeys) (catalog : Catalog) (hdistinct : tables.Distinct) :
    Ends keys (catalog.missing tables) catalog (build keys tables catalog) := by
  induction tables generalizing catalog with
  | nil =>
    have hend : Ends keys (catalog.missing ([] : Entries String (Descriptor η))) catalog
      (catalog ++ [], .ok ()) := .finished .nil
    rwa [List.append_nil] at hend
  | cons e rest ih =>
    obtain ⟨table, d⟩ := e
    obtain ⟨hnot, hrest⟩ := List.nodup_cons.mp hdistinct
    rw [build]
    split
    · next hhas =>
      have hmissing : catalog.missing ((table, d) :: rest) = catalog.missing rest := by
        simp [missing, hhas]
      rw [hmissing]
      exact ih _ hrest
    · next hhas =>
      have hmissing : catalog.missing ((table, d) :: rest) =
          (table, d) :: catalog.missing rest := by
        simp [missing, hhas]
      rw [hmissing]
      cases hcolumns : d.build (keys.ofTable table) with
      | error fault =>
        have hend : Ends keys ((table, d) :: catalog.missing rest) catalog
          (catalog ++ [], .error fault) := .failed (List.nil_append _).symm .nil hcolumns
        rwa [List.append_nil] at hend
      | ok columns =>
        have hbuilds : Builds keys (table, d) (table, columns) := ⟨rfl, hcolumns⟩
        refine .cons hbuilds ?_
        -- the table that has been added is not among the others
        have hsame : catalog.missing rest = missing (catalog ++ [(table, columns)]) rest := by
          rw [missing_append]
          refine (List.filter_eq_self.mpr fun e he => ?_).symm
          have hne : table ≠ e.1 := fun heq =>
            hnot (List.mem_map.mpr ⟨e, (List.mem_filter.mp he).1, heq.symm⟩)
          simp [Entries.has, hne]
        rw [hsame]
        exact ih _ hrest

/-! ### Building again -/

/-- Where nothing is missing, nothing is built. -/
theorem Ends.eq_of_nil {out : Catalog × Except BuildFault Unit}
    (h : Ends (η := η) keys [] catalog out) : out = (catalog, .ok ()) := by
  cases h with
  | finished h => rw [List.forall₂_nil_left_iff.mp h, List.append_nil]
  | failed hmissing => simp at hmissing

/-- Where the first missing table cannot be built, nothing is built. -/
theorem Ends.eq_of_cons {failing : String × Descriptor η} {rest : Entries String (Descriptor η)}
    {fault : BuildFault} {out : Catalog × Except BuildFault Unit}
    (hfault : failing.2.build (keys.ofTable failing.1) = .error fault)
    (h : Ends keys (failing :: rest) catalog out) : out = (catalog, .error fault) := by
  cases h with
  | finished h =>
    obtain ⟨t, _, hbuilds, -, rfl⟩ := List.forall₂_cons_left_iff.mp h
    exact absurd (hbuilds.columns.symm.trans hfault) (by simp)
  | @failed done _ _ _ fault' hmissing h hfault' =>
    cases done with
    | nil =>
      obtain ⟨rfl, rfl⟩ := List.cons.inj hmissing
      obtain rfl := Except.error.inj (hfault'.symm.trans hfault)
      rw [List.forall₂_nil_left_iff.mp h, List.append_nil]
    | cons e done =>
      obtain ⟨rfl, rfl⟩ := List.cons.inj hmissing
      obtain ⟨t, _, hbuilds, -, rfl⟩ := List.forall₂_cons_left_iff.mp h
      exact absurd (hbuilds.columns.symm.trans hfault) (by simp)

/-- What is missing when some of the missing tables have been added. -/
theorem missing_append_of_builds {done rest : Entries String (Descriptor η)} {built : Catalog}
    (hdistinct : tables.Distinct) (hmissing : catalog.missing tables = done ++ rest)
    (h : List.Forall₂ (Builds keys) done built) : missing (catalog ++ built) tables = rest := by
  have hnodup : (Entries.keys (done ++ rest)).Nodup := hmissing ▸ hdistinct.filter _
  rw [Entries.keys_append, List.nodup_append] at hnodup
  have hhas : ∀ table, built.has table = true ↔ table ∈ Entries.keys done := fun table => by
    rw [Entries.has_iff, Builds.keys_eq h]
  rw [missing_append, hmissing, List.filter_append]
  have hdone : done.filter (fun e => !built.has e.1) = [] := by
    refine List.filter_eq_nil_iff.mpr fun e he => ?_
    simp [(hhas e.1).mpr (List.mem_map.mpr ⟨e, he, rfl⟩)]
  have hrest : rest.filter (fun e => !built.has e.1) = rest := by
    refine List.filter_eq_self.mpr fun e he => ?_
    have hnot : ¬ built.has e.1 = true := fun hmem =>
      hnodup.2.2 _ ((hhas e.1).mp hmem) _ (List.mem_map.mpr ⟨e, he, rfl⟩) rfl
    simpa using hnot
  rw [hdone, hrest, List.nil_append]

/-- **Building again** changes nothing, and it ends as it ended before. -/
theorem build_build (keys : ForeignKeys) (catalog : Catalog) (hdistinct : tables.Distinct) :
    build keys tables (build keys tables catalog).1 = build keys tables catalog := by
  have hend := ends_build keys catalog hdistinct
  generalize build keys tables catalog = out at hend
  cases hend with
  | @finished built h =>
    have hagain := ends_build keys (catalog ++ built) hdistinct
    rw [missing_append_of_builds hdistinct (List.append_nil _).symm h] at hagain
    exact hagain.eq_of_nil
  | @failed _ _ _ built _ hmissing h hfault =>
    have hagain := ends_build keys (catalog ++ built) hdistinct
    rw [missing_append_of_builds hdistinct hmissing h] at hagain
    exact hagain.eq_of_cons hfault

end Catalog

/-! ### Databases -/

namespace Binding

/-- The received tables that are still to be built. -/
def pending (b : Binding) : Entries String (Descriptor Nat) :=
  b.catalog.missing b.received

/-- A binding keeps one descriptor for each name. -/
theorem distinct_receiveAll {b : Binding} (h : b.received.Distinct) (ds : List (Descriptor Nat)) :
    (b.receiveAll ds).received.Distinct := by
  rw [receiveAll_eq]
  exact Entries.distinct_foldl_put _ h

theorem catalog_receiveAll (b : Binding) (ds : List (Descriptor Nat)) :
    (b.receiveAll ds).catalog = b.catalog := by
  rw [receiveAll_eq]

/-- The names that a binding has received, in the order in which it received them first. -/
theorem keys_receiveAll {b : Binding} (hfresh : b.received = []) (ds : List (Descriptor Nat)) :
    Entries.keys (b.receiveAll ds).received = (ds.map Descriptor.tableName).eraseDups := by
  have hkeys : Entries.keys (ds.map fun d => (d.tableName, d)) = ds.map Descriptor.tableName := by
    rw [Entries.keys, List.map_map]
    rfl
  rw [receiveAll_eq, hfresh, ← hkeys]
  exact Entries.keys_ofPairs _

theorem keys_pending (b : Binding) :
    Entries.keys b.pending =
      (Entries.keys b.received).filter fun table => !b.catalog.has table := by
  rw [pending, Catalog.missing, Entries.keys, Entries.keys, List.filter_map]
  rfl

/-- How building goes if the tables of some names are still missing, and `built` is what it adds. -/
structure Increment (b : Binding) (missing : List String) (built : Catalog) : Prop where
  /-- The tables that are there stay as they are, and what is built comes behind them. -/
  build_fst : b.build.1 = { b with catalog := b.catalog ++ built }
  /-- Every table is added as a whole. -/
  whole : ∀ t ∈ built, ∃ d, b.received.get? t.1 = some d ∧
    d.build (b.foreignKeys.ofTable t.1) = .ok t.2
  finished : b.build.2 = .ok () → Entries.keys built = missing
  /-- If building fails, then at one of the missing tables: those before it are added, and it is
  not. -/
  failed : ∀ fault, b.build.2 = .error fault → ∃ failing rest d,
    missing = Entries.keys built ++ failing :: rest ∧ b.build.1.catalog.has failing = false ∧
      b.received.get? failing = some d ∧
      d.build (b.foreignKeys.ofTable failing) = .error fault
  again : b.build.1.build = b.build

/-- Whether building succeeds can be evaluated. -/
theorem build_eq_ok_of_toOption {b : Binding} (h : b.build.2.toOption = some ()) :
    b.build.2 = .ok () := by
  cases hresult : b.build.2 with
  | ok _ => rfl
  | error fault =>
    rw [hresult] at h
    cases h

/-- Building again builds from the same tables. -/
theorem build_again {b : Binding} (hreceived : b.received.Distinct) :
    b.build.1.build = b.build := by
  have hagain := Catalog.build_build b.foreignKeys b.catalog hreceived
  have hkeys : b.build.1.foreignKeys = b.foreignKeys := rfl
  unfold build at hkeys ⊢
  simp only at hkeys ⊢
  rw [hkeys, hagain]

/-- A table that is built is one of the received tables. -/
theorem whole_of_builds {b : Binding} (hreceived : b.received.Distinct)
    {tables : Entries String (Descriptor Nat)} (htables : ∀ e ∈ tables, e ∈ b.pending)
    {built : Catalog} (h : List.Forall₂ (Catalog.Builds b.foreignKeys) tables built)
    {t : String × List Column} (ht : t ∈ built) :
    ∃ d, b.received.get? t.1 = some d ∧ d.build (b.foreignKeys.ofTable t.1) = .ok t.2 := by
  obtain ⟨e, he, hbuilds⟩ := exists_mem_of_forall₂_left h.flip ht
  have hmem : e ∈ b.received := (List.mem_filter.mp (htables e he)).1
  rw [hbuilds.name]
  exact ⟨e.2, Entries.get?_eq_some_of_mem hreceived hmem, hbuilds.columns⟩

/-- Building adds to a database what is missing, in one of the two ways. -/
theorem exists_increment {b : Binding} (hreceived : b.received.Distinct) :
    ∃ built, b.Increment (Entries.keys b.pending) built := by
  have hend : Catalog.Ends b.foreignKeys b.pending b.catalog
    (b.catalog.build b.foreignKeys b.received) := Catalog.ends_build _ _ hreceived
  have hbuild : b.build = ({ b with catalog := (b.catalog.build b.foreignKeys b.received).1 },
    (b.catalog.build b.foreignKeys b.received).2) := rfl
  generalize b.catalog.build b.foreignKeys b.received = out at hend hbuild
  cases hend with
  | @finished built h =>
    refine ⟨built, by rw [hbuild], fun t ht => ?_, fun _ => Catalog.Builds.keys_eq h,
      fun fault hfault => ?_, build_again hreceived⟩
    · exact whole_of_builds hreceived (fun _ he => he) h ht
    · rw [hbuild] at hfault
      cases hfault
  | @failed done rest failing built fault hmissing h hfails =>
    have hkeys := Catalog.Builds.keys_eq h
    have hpending : failing ∈ b.pending := by rw [hmissing]; simp
    refine ⟨built, by rw [hbuild], fun t ht => ?_, fun hfinished => ?_, fun fault' hfault => ?_,
      build_again hreceived⟩
    · refine whole_of_builds hreceived (fun e he => ?_) h ht
      rw [hmissing]
      exact List.mem_append_left _ he
    · rw [hbuild] at hfinished
      cases hfinished
    · rw [hbuild] at hfault ⊢
      obtain rfl := Except.error.inj hfault
      refine ⟨failing.1, Entries.keys rest, failing.2, ?_, ?_,
        Entries.get?_eq_some_of_mem hreceived (List.mem_filter.mp hpending).1, hfails⟩
      · rw [hmissing, Entries.keys_append, hkeys]
        rfl
      · -- it is still missing, being the first of what is missing now
        have hstill := Catalog.missing_append_of_builds hreceived hmissing h
        have hfirst : failing ∈ Catalog.missing (b.catalog ++ built) b.received := by
          rw [hstill]
          exact List.mem_cons_self
        simpa using (List.mem_filter.mp hfirst).2

end Binding

/-! ### Looking up a table -/

namespace Lookup

variable {α β : Type}

/-- A look-up of two steps goes on where the first one has found something. -/
theorem run_bind (l : Lookup α) (f : α → Lookup β) (b : Binding) :
    (l >>= f).run.run b = match l.run.run b with
      | (.ok a, b') => (f a).run.run b'
      | (.error fault, b') => (.error fault, b') := by
  rw [ExceptT.run_bind, StateT.run_bind]
  rcases l.run.run b with ⟨_ | _, _⟩
  · rfl
  · rfl

theorem run_get (b : Binding) : (get : Lookup Binding).run.run b = (.ok b, b) :=
  rfl

theorem run_orFault (fault : LookupFault) (o : Option α) (b : Binding) :
    (orFault fault o).run.run b = (o.elim (.error fault) .ok, b) := by
  cases o with
  | none => rfl
  | some a => rfl

theorem run_build (b : Binding) :
    build.run.run b = (b.build.2.mapError LookupFault.build, b.build.1) := by
  rw [build, run_bind, run_get]
  simp only
  obtain ⟨b', result⟩ := b.build
  cases result with
  | error fault => rfl
  | ok _ => rfl

/-- **Looking up a table that is not there** builds what can be built, and then looks again. -/
theorem run_table_of_new {b : Binding} {name : String} (hnew : b.catalog.has name = false) :
    (table name).run.run b = (b.build.2.mapError LookupFault.build >>= fun _ =>
      (b.build.1.catalog.get? name).elim (.error (.noTable name)) .ok, b.build.1) := by
  have hsteps : table name = (get >>= fun b => if b.catalog.has name then
      get >>= fun b => orFault (.noTable name) (b.catalog.get? name)
      else build >>= fun _ => get >>= fun b => orFault (.noTable name) (b.catalog.get? name)) := rfl
  rw [hsteps, run_bind, run_get]
  simp only
  rw [hnew, if_neg Bool.false_ne_true, run_bind, run_build]
  cases b.build.2 with
  | error fault => rfl
  | ok _ => exact run_orFault _ _ _

end Lookup

/-! ### Any number of tables, and any database -/

namespace Binding

variable {b : Binding}

/-- The tables that an increment adds are tables that were missing. -/
theorem Increment.keys_subset {missing : List String} {built : Catalog}
    (h : b.Increment missing built) {name : String} (hname : name ∈ Entries.keys built) :
    name ∈ missing := by
  cases hresult : b.build.2 with
  | ok _ => exact h.finished hresult ▸ hname
  | error fault =>
    obtain ⟨failing, rest, d, hmissing, -⟩ := h.failed fault hresult
    rw [hmissing]
    exact List.mem_append_left _ hname

/-- **Building is incremental.** Let a database that may have tables already receive some tables.
Building then adds those that it does not have, in the order in which it received them first; it
adds each of them as a whole, and if it fails then it has added those before the failing one, and
building again changes nothing. Looking up a table builds only if the table is not there, and then
it is the same building; a name that has not been received is not found after that. -/
theorem build_incremental (hfresh : b.received = []) (ds : List (Descriptor Nat)) :
    (∃ built, (b.receiveAll ds).Increment
      ((ds.map Descriptor.tableName).eraseDups.filter fun table => !b.catalog.has table) built) ∧
    (∀ table columns, b.catalog.get? table = some columns →
      (Lookup.table table).run.run (b.receiveAll ds) = (.ok columns, b.receiveAll ds)) ∧
    ∀ table, b.catalog.has table = false →
      ((Lookup.table table).run.run (b.receiveAll ds)).2 = (b.receiveAll ds).build.1 ∧
      (∀ fault, (b.receiveAll ds).build.2 = .error fault →
        ((Lookup.table table).run.run (b.receiveAll ds)).1 = .error (.build fault)) ∧
      ((b.receiveAll ds).build.2 = .ok () → table ∉ ds.map Descriptor.tableName →
        ((Lookup.table table).run.run (b.receiveAll ds)).1 = .error (.noTable table)) := by
  have hreceived : (b.receiveAll ds).received.Distinct :=
    distinct_receiveAll (by rw [hfresh]; exact List.nodup_nil) ds
  have hpending : Entries.keys (b.receiveAll ds).pending =
      (ds.map Descriptor.tableName).eraseDups.filter fun table => !b.catalog.has table := by
    rw [keys_pending, keys_receiveAll hfresh, catalog_receiveAll]
  obtain ⟨built, hincrement⟩ := exists_increment hreceived
  rw [hpending] at hincrement
  refine ⟨⟨built, hincrement⟩, fun table columns hcolumns => ?_, fun table hnew => ?_⟩
  · rw [← catalog_receiveAll b ds] at hcolumns
    exact Lookup.Finds.table hcolumns
  · have hhas : (b.receiveAll ds).catalog.has table = false := by rwa [catalog_receiveAll]
    rw [Lookup.run_table_of_new hhas]
    refine ⟨rfl, fun fault hfault => ?_, fun hok hnot => ?_⟩
    · simp only [hfault]
      rfl
    · have hnone : (b.receiveAll ds).build.1.catalog.get? table = none := by
        have hnever : ((b.receiveAll ds).catalog ++ built).has table = false := by
          rw [Catalog.has_append, hhas, Bool.false_or, Bool.eq_false_iff, ne_eq, Entries.has_iff]
          intro hmem
          have hkey := (List.mem_filter.mp (hincrement.keys_subset hmem)).1
          exact hnot (List.mem_eraseDups.mp hkey)
        rw [hincrement.build_fst]
        exact Option.isNone_iff_eq_none.mp (by simpa [Entries.has] using hnever)
      simp only [hok, hnone]
      rfl

/-- A table that is there already, one that is received twice, one that has a default which is no
date, and one more. -/
def loanDescriptors : List (Descriptor Nat) :=
  let due : Fields := [(.text "properties", .object [("due", .object
    [("type", .text "string"), ("format", .text "date"), ("default", .text "soon")])])]
  [{ modelName := "Book", tableName := "book" }, { modelName := "Reader", tableName := "reader" },
    { modelName := "Loan", tableName := "loan", schema := due },
    { modelName := "Reader", tableName := "reader" }, { modelName := "Shelf", tableName := "shelf" }]

/-- Building stops at the loans, with the books untouched and the readers added. -/
theorem build_incremental_loans :
    ∃ b : Binding, b.received = [] ∧ Entries.keys b.catalog = ["book"] ∧
      Entries.keys (b.receiveAll loanDescriptors).build.1.catalog = ["book", "reader"] ∧
      (∃ built, (b.receiveAll loanDescriptors).Increment ["reader", "loan", "shelf"] built) ∧
      ∀ table ∈ ["loan", "shelf", "author"],
        ((Lookup.table table).run.run (b.receiveAll loanDescriptors)).1 =
          .error (.build (.column (.unreadable "soon" "date"))) := by
  let b : Binding := { catalog := [("book", [.identity "isbn"])] }
  obtain ⟨hincrement, -, hnew⟩ := build_incremental (b := b) rfl loanDescriptors
  refine ⟨b, rfl, rfl, rfl, hincrement, fun table htable => ?_⟩
  have hhas : ∀ table ∈ ["loan", "shelf", "author"], b.catalog.has table = false := by decide
  exact (hnew table (hhas table htable)).2.1 _ rfl

end Binding

end NestedTables
