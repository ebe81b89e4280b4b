import NestedTables.Compile.Walk
import NestedTables.Proofs.Document.Pairs
import NestedTables.Proofs.Schema.Region

/-!
# What becomes of a node inside a table

`Rewriting` says what the schema of a table looks like, by a recursion over the document and with
no word of a walk. A node loses its override keys. Of its properties, a table leaves a foreign key
to it under the property with `_id` behind it; an array of tables leaves nothing; any other node
is rewritten in turn; and what is no node stays as it is. An item schema that is a table stays
where it is, as the schema that the table has itself, and any other one is rewritten in turn.
Everything else is kept, and the order is that of the document.

The schema of a table that stays where it is depends on the whole compilation, so a rewriting is
given these schemas by their pointers.
-/

namespace NestedTables

/-- A node with a new value for a key, if the value that it has is a mapping. -/
def Fields.change (key : String) (f : Fields → Value) (node : Fields) : Fields :=
  match node.mapping? key with
  | none => node
  | some sub => Entries.put (.text key) (f sub) node

theorem Fields.distinct_change {node : Fields} (hd : Entries.Distinct node) (key : String)
    (f : Fields → Value) : Entries.Distinct (node.change key f) := by
  unfold change
  split
  · exact hd
  · exact hd.put _ _

theorem Fields.mapping?_change_of_ne {key key' : String} (h : key ≠ key') (f : Fields → Value)
    (node : Fields) : (node.change key f).mapping? key' = node.mapping? key' := by
  unfold change
  split
  · rfl
  · rw [mapping?, value?, Entries.get?_put, if_neg (by simpa using h)]
    rfl

/-- Such a change is made entry by entry. -/
theorem Fields.change_eq_map {node : Fields} (hd : Entries.Distinct node) (key : String)
    (f : Fields → Value) :
    node.change key f = node.map fun e =>
      (e.1, if e.1 = .text key then (e.2.fields?.map f).getD e.2 else e.2) := by
  have hvalue : ∀ e ∈ node, e.1 = .text key → e.2.fields? = node.mapping? key := by
    rintro ⟨k, v⟩ he rfl
    have hget : node.value? key = some v := Entries.get?_eq_some_of_mem hd he
    rw [mapping?, hget, Option.bind_some]
  cases hsub : node.mapping? key with
  | none =>
    rw [change, hsub]
    refine ((List.map_congr_left fun e he => ?_).trans (List.map_id node)).symm
    by_cases hk : e.1 = .text key
    · rw [if_pos hk, hvalue e he hk, hsub]
      rfl
    · rw [if_neg hk]
      rfl
  | some sub =>
    have hmem : Scalar.text key ∈ Entries.keys node := by
      obtain ⟨v, hv, -⟩ := Option.bind_eq_some_iff.mp hsub
      exact List.mem_map.mpr ⟨_, Entries.mem_of_get?_eq_some hv, rfl⟩
    rw [change, hsub]
    simp only
    rw [Entries.put_eq_map hd hmem]
    refine List.map_congr_left fun e he => ?_
    by_cases hk : e.1 = .text key
    · rw [if_pos hk, if_pos hk, hvalue e he hk, hsub]
      rfl
    · rw [if_neg hk, if_neg hk]

/-- What a rewriting depends on. -/
structure Rewriting where
  settings : Settings
  /-- The schemas of the tables that stay where they are. -/
  inline : Pointer → Fields

namespace Rewriting

/-- Whether a key of a node is one of the overrides. -/
def owns (w : Rewriting) : Scalar → Bool
  | .text key => w.settings.owns key
  | _ => false

mutual

/-- What a value becomes that stands at a pointer. -/
def value (w : Rewriting) (at_ : Pointer) : Value → Value
  | .map es => .map (w.entries at_ es)
  | v => v

/-- What the entries of a node become. -/
def entries (w : Rewriting) (at_ : Pointer) : List (Scalar × Value) → List (Scalar × Value)
  | [] => []
  | (k, v) :: es =>
    if w.owns k then w.entries at_ es
    else if k = propertiesKey then (k, w.properties at_ v) :: w.entries at_ es
    else if k = .text "items" then
      (k, if v.isTable then .map (w.inline (at_ ++ Step.items.path))
        else w.value (at_ ++ Step.items.path) v) :: w.entries at_ es
    else (k, v) :: w.entries at_ es

/-- What the properties of a node become, if they are a mapping. -/
def properties (w : Rewriting) (at_ : Pointer) : Value → Value
  | .map ps => .map (Entries.ofPairs (w.columns at_ ps))
  | v => v

/-- What each of the properties of a node becomes, in their order. -/
def columns (w : Rewriting) (at_ : Pointer) : List (Scalar × Value) → List (Scalar × Value)
  | [] => []
  | (k, v) :: ps =>
    match v.nodeKind with
    | .table => (.text (Walk.stub k), .map w.settings.foreignKey) :: w.columns at_ ps
    | .arrayOfTable => w.columns at_ ps
    | _ => (k, w.value (at_ ++ (Step.property k).path) v) :: w.columns at_ ps

end

variable (w : Rewriting) (at_ : Pointer)

theorem value_of_fields?_eq_none {v : Value} (h : v.fields? = none) : w.value at_ v = v := by
  cases v <;> simp_all [value, Value.fields?]

/-- What the value of a key of a node becomes. -/
def entry (k : Scalar) (v : Value) : Value :=
  if k = propertiesKey then w.properties at_ v
  else if k = .text "items" then
    if v.isTable then .map (w.inline (at_ ++ Step.items.path))
    else w.value (at_ ++ Step.items.path) v
  else v

/-- **The entries of a node** are left out or changed one by one. -/
theorem entries_eq_map (es : Fields) :
    w.entries at_ es =
      (es.filter fun e => !w.owns e.1).map fun e => (e.1, w.entry at_ e.1 e.2) := by
  induction es with
  | nil => simp [entries]
  | cons e es ih =>
    obtain ⟨k, v⟩ := e
    cases howns : w.owns k with
    | true => simp [entries, howns, ih]
    | false =>
      rw [entries, if_neg (by simp [howns]), List.filter_cons_of_pos (by simp [howns]),
        List.map_cons, ← ih, entry]
      by_cases hproperties : k = propertiesKey
      · rw [if_pos hproperties, if_pos hproperties]
      · rw [if_neg hproperties, if_neg hproperties]
        split <;> rfl

/-- What is no override is still there when the overrides are left out. -/
theorem mapping?_filter_owns {key : String} (hkey : w.settings.owns key = false) (node : Fields) :
    Fields.mapping? (node.filter fun e => !w.owns e.1) key = node.mapping? key := by
  have hkeep : (!w.owns (.text key)) = true := by simp [owns, hkey]
  rw [Fields.mapping?, Fields.value?, Entries.get?_filter (fun k => !w.owns k) hkeep]
  rfl

/-- **The entries of a node, by what changes**: without its override keys, the node has other
values for the properties and for the items. -/
theorem entries_eq_change {node : Fields} (hd : Entries.Distinct node) :
    w.entries at_ node =
      ((Fields.change "properties" fun ps => .map (Entries.ofPairs (w.columns at_ ps)))
        (node.filter fun e => !w.owns e.1)).change "items" fun items =>
          if items.isTable then .map (w.inline (at_ ++ Step.items.path))
          else w.value (at_ ++ Step.items.path) (.map items) := by
  rw [Fields.change_eq_map (Fields.distinct_change (hd.filter _) _ _),
    Fields.change_eq_map (hd.filter _), List.map_map, entries_eq_map]
  refine List.map_congr_left fun e _ => ?_
  obtain ⟨k, v⟩ := e
  simp only [Function.comp_apply, entry, propertiesKey, Prod.mk.injEq, true_and]
  by_cases hproperties : k = .text "properties"
  · have hitems : k ≠ .text "items" := by
      rw [hproperties]
      decide
    rw [if_pos hproperties, if_neg hitems, if_pos hproperties]
    cases v <;> rfl
  · rw [if_neg hproperties, if_neg hproperties]
    by_cases hitems : k = .text "items"
    · rw [if_pos hitems, if_pos hitems]
      cases v <;> rfl
    · rw [if_neg hitems, if_neg hitems]

/-- What a property of a node becomes: one column at most. -/
def column (k : Scalar) (v : Value) : Fields :=
  match v.nodeKind with
  | .table => [(.text (Walk.stub k), .map w.settings.foreignKey)]
  | .arrayOfTable => []
  | _ => [(k, w.value (at_ ++ (Step.property k).path) v)]

/-- **The columns of a node** are those of its properties. -/
theorem columns_eq_flatMap (ps : Fields) :
    w.columns at_ ps = ps.flatMap fun e => w.column at_ e.1 e.2 := by
  induction ps with
  | nil => simp [columns]
  | cons e ps ih =>
    obtain ⟨k, v⟩ := e
    rw [columns, List.flatMap_cons, column, ih]
    cases v.nodeKind <;> rfl

/-- The columns of a table that its node declares, of which some may be left out. -/
def ownColumns (leaves : Scalar → Bool) (node : Fields) : Fields :=
  (Entries.ofPairs (w.columns at_ ((node.mapping? "properties").getD []))).filter
    fun e => leaves e.1

/-- The schema of a table: that of its node, with some foreign keys behind the columns. -/
def table (leaves : Scalar → Bool) (node : Fields) (foreignKeys : List String) : Fields :=
  Entries.put propertiesKey (.map (w.ownColumns at_ leaves node ++
    foreignKeys.map fun column => (.text column, .map w.settings.foreignKey)))
      (w.entries at_ node)

end Rewriting

/-! ### Columns of the same name -/

/-- Whether no property of a node has the name of a foreign key that one of its tables leaves. -/
def Fields.StubsFree (node : Fields) : Prop :=
  ∀ e ∈ (node.mapping? "properties").getD [], e.2.isTable = true →
    .text (Walk.stub e.1) ∉ Entries.keys ((node.mapping? "properties").getD [])

instance (node : Fields) : Decidable node.StubsFree :=
  inferInstanceAs (Decidable (∀ e ∈ (node.mapping? "properties").getD [], e.2.isTable = true →
    .text (Walk.stub e.1) ∉ Entries.keys ((node.mapping? "properties").getD [])))

namespace Rewriting

variable {w : Rewriting} {at_ : Pointer}

theorem nodeKind_eq_table_iff {v : Value} : v.nodeKind = .table ↔ v.isTable = true := by
  cases v with
  | map node => exact Fields.kind_eq_table_iff
  | _ => simp [Value.nodeKind, Value.isTable]

/-- A property becomes a column under the name of its foreign key or under its own. -/
theorem keys_column_subset {k : Scalar} {v : Value} :
    Entries.keys (w.column at_ k v) ⊆
      if v.isTable then [.text (Walk.stub k)] else [k] := by
  by_cases htable : v.isTable = true
  · rw [if_pos htable, column, nodeKind_eq_table_iff.mpr htable]
    exact List.Subset.refl _
  · rw [if_neg htable, column]
    have hkind := mt nodeKind_eq_table_iff.mp htable
    cases hv : v.nodeKind with
    | table => exact absurd hv hkind
    | arrayOfTable => exact List.nil_subset _
    | embedded | arrayOfEmbedded | scalar => exact List.Subset.refl _

theorem stub_injective {k k' : Scalar} (hk : k.isText = true) (hk' : k'.isText = true)
    (h : Walk.stub k = Walk.stub k') : k = k' := by
  obtain ⟨s, rfl⟩ := Scalar.isText_iff.mp hk
  obtain ⟨t, rfl⟩ := Scalar.isText_iff.mp hk'
  have hlists := congrArg String.toList h
  simp only [Walk.stub, String.toList_append, List.append_cancel_right_eq] at hlists
  exact congrArg Scalar.text (String.toList_injective hlists)

/-- **The columns of a node have different names** if none of its properties has the name of a
foreign key. -/
theorem distinct_columns {node properties : Fields} (hkeyed : node.isKeyed = true)
    (hfree : node.StubsFree) (hproperties : node.mapping? "properties" = some properties) :
    Entries.Distinct (w.columns at_ properties) := by
  obtain ⟨hd, htext⟩ := (Fields.isKeyed_iff properties).mp
    (Fields.isKeyed_of_mapping? hkeyed hproperties)
  have hkeys : Entries.keys (w.columns at_ properties) =
      properties.flatMap fun e => Entries.keys (w.column at_ e.1 e.2) := by
    rw [columns_eq_flatMap, Entries.keys, List.map_flatMap]
    rfl
  have hstub : ∀ e ∈ properties, e.2.isTable = true →
      .text (Walk.stub e.1) ∉ Entries.keys properties := by
    rw [Fields.StubsFree, hproperties] at hfree
    exact hfree
  rw [Entries.Distinct, hkeys, List.nodup_flatMap]
  refine ⟨fun e _ => ?_, ?_⟩
  · unfold column
    cases e.2.nodeKind <;> simp [Entries.keys]
  · have hnames : properties.Pairwise fun e e' => e.1 ≠ e'.1 := List.pairwise_map.mp hd
    refine hnames.imp_of_mem fun {e e'} he he' hne key hkey hkey' => ?_
    have hmem : e.1 ∈ Entries.keys properties := List.mem_map.mpr ⟨e, he, rfl⟩
    have hmem' : e'.1 ∈ Entries.keys properties := List.mem_map.mpr ⟨e', he', rfl⟩
    have h := keys_column_subset hkey
    have h' := keys_column_subset hkey'
    -- two foreign keys, a foreign key and a property, or two properties
    split at h <;> split at h' <;> rw [List.mem_singleton] at h h'
    · exact hne (stub_injective (htext e he).1 (htext e' he').1
        (Scalar.text.inj (h.symm.trans h')))
    · next htable _ => exact hstub e he htable (h ▸ h' ▸ hmem')
    · next _ htable => exact hstub e' he' htable (h' ▸ h ▸ hmem)
    · exact hne (h.symm.trans h')

end Rewriting

end NestedTables
