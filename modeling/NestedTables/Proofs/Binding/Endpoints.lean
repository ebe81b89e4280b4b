import NestedTables.Proofs.Binding.Joins

/-!
# The ends of relations to many

The two ends of the relation of an array of tables are written as a table, a dot and a column, and
only a binding reads them again. Here is what it reads (`compile_endpoints`): the table and the
identity column of the owner on one side; on the other side the column that the array names, or the
identity column of the target, or its foreign key.

The rules make sure that a column which an array names can be read. They let any other name have a
dot in it, and then the end cannot be read at all: the reference has more than two parts
(`ColumnRef.ofText?_written`). A foreign key is not affected, since the dots of its own name are
flattened; the name of its table is. `compile_endpoints_dotted` is a schema with such a name.
-/

namespace NestedTables

variable {η ε : Type}

/-! ### Reading what has been written -/

namespace ColumnRef

/-- The reference, unless one of its parts has a dot. -/
def dotless? (r : ColumnRef) : Option ColumnRef :=
  if '.' ∈ r.table.toList ∨ '.' ∈ r.column.toList then none else some r

theorem count_dot_written (r : ColumnRef) :
    r.written.toList.count '.' = r.table.toList.count '.' + r.column.toList.count '.' + 1 := by
  have hlist : r.written.toList = r.table.toList ++ '.' :: r.column.toList := by simp [written]
  rw [hlist, List.count_append, List.count_cons_self, Nat.add_assoc]

/-- **A reference that has been written is read again** unless one of its parts has a dot. -/
theorem ofText?_written {r : ColumnRef} (htable : r.table ≠ "") (hcolumn : r.column ≠ "") :
    ofText? r.written = r.dotless? := by
  unfold dotless?
  split
  · next hdot =>
    rw [Option.eq_none_iff_forall_ne_some]
    intro r' hr'
    obtain ⟨heq, ⟨-, htable'⟩, ⟨-, hcolumn'⟩⟩ := (ofText?_eq_some_iff ..).mp hr'
    -- what is read has one dot, and the text has more
    have hcount := congrArg (fun s : String => s.toList.count '.') heq
    simp only [count_dot_written, List.count_eq_zero.mpr htable',
      List.count_eq_zero.mpr hcolumn'] at hcount
    rcases hdot with h | h
    · have := List.count_pos_iff.mpr h
      omega
    · have := List.count_pos_iff.mpr h
      omega
  · next hdot =>
    rw [not_or] at hdot
    exact (ofText?_eq_some_iff ..).mpr ⟨rfl, ⟨htable, hdot.1⟩, ⟨hcolumn, hdot.2⟩⟩

/-- The name of a foreign key is no obstacle. -/
theorem dotless?_foreignKey (table : String) (r : ColumnRef) :
    (ColumnRef.mk table (flatten r.written)).dotless? =
      if '.' ∈ table.toList then none else some ⟨table, flatten r.written⟩ := by
  simp [dotless?, (isPart_flatten r).2]

end ColumnRef

/-! ### Relations of arrays of tables -/

/-- What is read at the ends of the relation that an array of tables becomes: `owner` is the table
that has the relation, `target` the table of the items. -/
structure Relation.Ends (settings : Settings) (owner array target : Fields) (r : Relation η) :
    Prop where
  /-- The own column is the identity column of the owner. -/
  joinFrom : r.joinFrom = some (owner.idPath settings)
  own : r.own? = (owner.idRef settings).dotless?
  /-- The other column is the one that the array names, which can be read; or the identity column of
  the target, if the array names a join table; or else the foreign key of the target. -/
  other : match array.join settings (owner.idPath settings) with
    | .column ref => r.joinTo = ref ∧ (ColumnRef.ofText? r.joinTo).isSome = true
    | .through _ => ColumnRef.ofText? r.joinTo = (target.idRef settings).dotless?
    | .foreignKey column =>
      column = ColumnRef.flatten (owner.idPath settings) ∧
        ColumnRef.ofText? r.joinTo =
          if '.' ∈ (target.names settings).tableName.toList then none
          else some ⟨(target.names settings).tableName, column⟩

/-- The ends of the relation at a site, if the names of both tables are not empty. -/
theorem Site.ends_relation {setting : Walk.Setting η ε} {owner : Tree} {s : Site}
    {tables : List String} (htable : s.child.fields.isTable = false)
    (hnode : Override.NoErrors setting.settings tables s.child.fields)
    (hown : (owner.fields.idRef setting.settings).table ≠ "" ∧
      (owner.fields.idRef setting.settings).column ≠ "")
    (htarget : (s.target.idRef setting.settings).table ≠ "" ∧
      (s.target.idRef setting.settings).column ≠ "") :
    (s.relation setting (owner.context setting.settings) : Relation Unit).Ends setting.settings
      owner.fields s.child.fields s.target := by
  have hpath : (owner.context setting.settings).idPath = owner.fields.idPath setting.settings := rfl
  rw [Site.relation, if_neg (by simp [htable]), hpath]
  refine ⟨rfl, ColumnRef.ofText?_written hown.1 hown.2, ?_⟩
  cases hjoin : s.child.fields.join setting.settings (owner.fields.idPath setting.settings) with
  | column ref =>
    obtain ⟨r, hr⟩ := Override.exists_reference_of_joinToColumn hnode
      (Fields.joinToColumn_of_join hjoin)
    exact ⟨rfl, Option.isSome_iff_exists.mpr ⟨r, hr⟩⟩
  | through t => exact ColumnRef.ofText?_written htarget.1 htarget.2
  | foreignKey column =>
    obtain ⟨-, -, rfl⟩ := (Override.join_eq_foreignKey_iff hnode).mp hjoin
    refine ⟨rfl, Eq.trans ?_ (ColumnRef.dotless?_foreignKey _ (owner.fields.idRef setting.settings))⟩
    exact ColumnRef.ofText?_written (r := ⟨_, _⟩) htarget.1 (ColumnRef.isPart_flatten _).1

variable {settings : Settings} {schema : Fields}

/-- **The ends of the relations to many.** In a compilation that gives a result every relation of
every table is that of a site of the table; and if the site is an array of tables, its own end is
read as the identity column of the owner, and its other end as the column that the join asks for,
unless there is a dot in a name that the rules do not look at. -/
theorem compile_endpoints (binder : Binder η ε) (hset : settings.IsValid)
    (hkeyed : schema.isKeyed = true) {models : Entries String η}
    (hok : (compile binder settings (.map schema)).result = .ok models) {i : Nat}
    {d : Descriptor η} (hd : (compile binder settings (.map schema)).tables[i]? = some d)
    {e : String × Relation η} (he : e ∈ d.relations) :
    ∃ t, (Tree.ofFields schema).tables[i]? = some t ∧ ∃ s ∈ t.2.sites, s.name = e.1 ∧
      (s.child.fields.kind = .arrayOfTable →
        e.2.kind = binder.hasMany ∧ e.2.Ends settings t.2.fields s.child.fields s.target) := by
  have hvalid := isValid_of_result_eq_ok binder hok
  obtain ⟨t, ht, hdescribes⟩ := exists_described hset hkeyed hok hd
  obtain ⟨s, hs, hname, hrelation⟩ := hdescribes.exists_site he
  have hmem := List.mem_of_getElem? ht
  obtain ⟨t', ht', htarget⟩ := Tree.exists_target hkeyed hmem hs
  have hnode := Override.isValid_iff_noErrors.mp hvalid _ (Tree.walked_of_mem_sites hkeyed hmem hs)
  refine ⟨t, ht, s, hs, hname, fun hkind => ?_⟩
  have htable : s.child.fields.isTable = false := (Fields.exists_items_of_kind hkind).1
  have hown := idRef_ne_of_mem_tables hset hkeyed hvalid hmem
  have hother := idRef_ne_of_mem_tables hset hkeyed hvalid ht'
  rw [htarget] at hother
  have hends := @Site.ends_relation η ε ⟨settings, binder⟩ t.2 s _ htable hnode hown hother
  have hkind' : e.2.kind = binder.hasMany := by
    rw [Site.relation, if_neg (by simp [htable])] at hrelation
    exact (congrArg Relation.kind hrelation).symm
  rw [hrelation] at hends
  exact ⟨hkind', hends.joinFrom, hends.own, hends.other⟩

/-- Lines of an order. -/
def dottedSchema : Fields :=
  [(.text "$id", .text "shop.order"), (.text "properties", .object
    [("lines", .object [("type", .text "array"), ("items", .object [("$id", .text "line")])])])]

theorem result_dottedSchema :
    (compile (Binder.counting : Binder Nat Empty) {} (.map dottedSchema)).result =
      .ok [("line", 0), ("shop.order", 1)] := by
  rfl

/-- The lines are found by the foreign key that has been made from the dotted name. -/
theorem compile_endpoints_lines :
    ({} : Settings).IsValid ∧ dottedSchema.isKeyed = true ∧
      (compile (Binder.counting : Binder Nat Empty) {} (.map dottedSchema)).result =
        .ok [("line", 0), ("shop.order", 1)] ∧
      ∃ d e, (compile (Binder.counting : Binder Nat Empty) {} (.map dottedSchema)).tables[1]? =
          some d ∧ e ∈ d.relations ∧ e.1 = "lines" ∧ e.2.joinTo = "line.shop_order_id" ∧
        ∃ t, (Tree.ofFields dottedSchema).tables[1]? = some t ∧ ∃ s ∈ t.2.sites, s.name = e.1 ∧
          (s.child.fields.kind = .arrayOfTable →
            e.2.kind = (Binder.counting : Binder Nat Empty).hasMany ∧
              e.2.Ends {} t.2.fields s.child.fields s.target) := by
  have hkeyed : dottedSchema.isKeyed = true := by decide
  obtain ⟨d, e, hd, he, hname, hjoinTo⟩ : ∃ d e,
      (compile (Binder.counting : Binder Nat Empty) {} (.map dottedSchema)).tables[1]? = some d ∧
        e ∈ d.relations ∧ e.1 = "lines" ∧ e.2.joinTo = "line.shop_order_id" :=
    ⟨_, _, rfl, List.mem_cons_self, rfl, rfl⟩
  exact ⟨Settings.isValid_default, hkeyed, result_dottedSchema, d, e, hd, he, hname, hjoinTo,
    compile_endpoints Binder.counting Settings.isValid_default hkeyed result_dottedSchema hd he⟩

/-- **A dot in the name of a table** makes the own end of a relation to many unreadable, in a schema
that the rules accept and that compiles. -/
theorem compile_endpoints_dotted :
    (compile (Binder.counting : Binder Nat Empty) {} (.map dottedSchema)).result =
        .ok [("line", 0), ("shop.order", 1)] ∧
      ¬ ∀ d ∈ (compile (Binder.counting : Binder Nat Empty) {} (.map dottedSchema)).tables,
        ∀ e ∈ d.relations, e.2.kind = (Binder.counting : Binder Nat Empty).hasMany →
          ∃ text, e.2.joinFrom = some text ∧ (ColumnRef.ofText? text).isSome = true := by
  refine ⟨result_dottedSchema, fun h => ?_⟩
  obtain ⟨text, hfrom, hsome⟩ := h _ (List.mem_of_getElem? (i := 1) rfl) _ List.mem_cons_self rfl
  obtain rfl : "shop.order.id" = text := Option.some.inj hfrom
  revert hsome
  decide

end NestedTables
