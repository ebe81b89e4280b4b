import NestedTables.Compile.Walk
import NestedTables.Proofs.Document.Pairs
import NestedTables.Proofs.Schema.Walked

/-!
# Nodes that are the same to a walk

A walk reads little of a node: what it is called, what kind of node it is, the nodes right below
it, and the entries that are kept. `Fields.Corresponds` says that two nodes, each with settings of
its own, are the same in all this, and that the nodes below them are related in turn, by any
relation that is wanted. The relation may know where a node stands: whether the node above it
belongs to a table, and the step to it.

What a node is and what it is called are read off a few keys (`Fields.SaysSame`). If related nodes
correspond, then related nodes have related children (`Fields.Corresponds.children`)
and, all the way down, related nodes at the same pointers (`Fields.forall₂_nodes`).
-/

namespace NestedTables

/-! ### Entries that are the same but for some values -/

namespace Entries

variable {κ α β : Type}

/-- Whether entries have the same keys in the same order, and the same values but for some keys. -/
def SameBut (K : κ → Prop) (es es' : Entries κ α) : Prop :=
  List.Forall₂ (fun e e' => e.1 = e'.1 ∧ (e.2 = e'.2 ∨ K e.1)) es es'

variable {K : κ → Prop} {es es' : Entries κ α}

theorem SameBut.eq (h : SameBut K es es') (hK : ∀ k, ¬ K k) : es = es' := by
  induction h with
  | nil => rfl
  | cons he _ ih =>
    obtain ⟨hkey, hvalue | hk⟩ := he
    · rw [ih, Prod.ext hkey hvalue]
    · exact absurd hk (hK _)

theorem SameBut.mono {K' : κ → Prop} (h : SameBut K es es') (hK : ∀ k, K k → K' k) :
    SameBut K' es es' :=
  h.imp fun _ _ he => ⟨he.1, he.2.imp_right (hK _)⟩

theorem SameBut.mapValues (h : SameBut K es es') (f : α → β) :
    SameBut K (mapValues f es) (mapValues f es') :=
  List.forall₂_map_left_iff.mpr (List.forall₂_map_right_iff.mpr
    (h.imp fun _ _ he => ⟨he.1, he.2.imp_left (congrArg f)⟩))

variable [DecidableEq κ]

/-- **Giving a key one value** in both takes away what they differ in there. -/
theorem SameBut.put (h : SameBut K es es') (hd : Distinct es) (k : κ) (v : α) :
    SameBut (fun j => K j ∧ j ≠ k) (put k v es) (put k v es') := by
  induction h with
  | nil => exact .cons ⟨rfl, .inl rfl⟩ .nil
  | @cons e e' es es' he hrest ih =>
    obtain ⟨j, w⟩ := e
    obtain ⟨_, w'⟩ := e'
    obtain ⟨rfl, hvalue⟩ := he
    obtain ⟨hj, hdrest⟩ := List.nodup_cons.mp hd
    by_cases hjk : j = k
    · -- the key is not there again
      subst hjk
      rw [Entries.put, Entries.put, if_pos rfl, if_pos rfl]
      refine .cons ⟨rfl, .inl rfl⟩ ?_
      have hne : ∀ e ∈ es, e.1 ≠ j := fun e hmem heq => hj (heq ▸ List.mem_map.mpr ⟨e, hmem, rfl⟩)
      clear ih hd hdrest hj
      induction hrest with
      | nil => exact .nil
      | cons he _ ih =>
        rw [List.forall_mem_cons] at hne
        exact .cons ⟨he.1, he.2.imp_right fun hK => ⟨hK, hne.1⟩⟩ (ih hne.2)
    · rw [Entries.put, Entries.put, if_neg hjk, if_neg hjk]
      exact .cons ⟨rfl, hvalue.imp_right fun hK => ⟨hK, hjk⟩⟩ (ih hdrest)

end Entries

/-! ### What a node says of itself -/

/-- The keys that a compilation reads, apart from overrides. -/
def Fields.keywords : List String :=
  [identityKey, "type", "title", "properties", "items"] ++ Fields.unvisitedKeywords

/-- Whether a node is a table is said by its identity, its type and whether it has properties. -/
theorem Fields.isTable_congr {node node' : Fields}
    (hidentity : node'.value? identityKey = node.value? identityKey)
    (htype : node'.value? "type" = node.value? "type")
    (hproperties : (node'.mapping? "properties").isSome = (node.mapping? "properties").isSome) :
    node'.isTable = node.isTable := by
  rw [isTable, isTable, holds, holds, hidentity, htype, hproperties]

theorem Fields.isTable_value (node : Fields) (key : String) :
    (node.value key).isTable = (node.mapping? key).any isTable := by
  rw [value, mapping?]
  cases node.value? key with
  | none => rfl
  | some v => cases v <;> rfl

/-- Whether two nodes, each with settings of its own, are the same under the keys that say what
they are and what they are called. -/
structure Fields.SaysSame (settings settings' : Settings) (node node' : Fields) : Prop where
  value? : ∀ key ∈ [identityKey, "type", "title"], node'.value? key = node.value? key
  override? : ∀ o ∈ [Override.tableName, .modelName, .idColumn],
    settings'.override? o node' = settings.override? o node
  properties : (node'.mapping? "properties").isSome = (node.mapping? "properties").isSome
  items : (node'.mapping? "items").isSome = (node.mapping? "items").isSome
  itemsTable : (node'.value "items").isTable = (node.value "items").isTable

namespace Fields.SaysSame

variable {settings settings' : Settings} {node node' : Fields}
  (h : node.SaysSame settings settings' node')
include h

theorem isTable_eq : node'.isTable = node.isTable :=
  isTable_congr (h.value? identityKey (by simp)) (h.value? "type" (by simp)) h.properties

theorem kind_eq : node'.kind = node.kind := by
  have harray : node'.isArray = node.isArray := by
    rw [isArray, isArray, holds, holds, h.value? "type" (by simp), h.items]
  have htype : node'.value "type" = node.value "type" := by
    rw [value, value, h.value? "type" (by simp)]
  rw [kind, kind, h.isTable_eq, harray, h.itemsTable, htype, h.properties]

theorem name?_eq {o : Override} (ho : o ∈ [Override.tableName, .modelName, .idColumn]) :
    node'.name? settings' o = node.name? settings o := by
  rw [name?, name?, h.override? o ho, h.value? "title" (by simp), h.value? identityKey (by simp)]

/-- Both nodes have the same names. -/
theorem identity_eq (hcolumn : settings'.idColumn = settings.idColumn) :
    Walk.identity settings' node' = Walk.identity settings node := by
  rw [Walk.identity, Walk.identity, modelName?, modelName?, tableName?, tableName?,
    h.name?_eq (by simp), h.name?_eq (by simp), idColumn, idColumn, h.override? _ (by simp), hcolumn]

end Fields.SaysSame

/-! ### Nodes -/

/-- Whether an entry of a node is kept, which overrides are not. -/
def Settings.keeps (settings : Settings) : Scalar → Bool
  | .text key => !settings.owns key
  | _ => true

/-- Whether an entry of a node holds nodes that are below it. -/
def Fields.Branches (e : Scalar × Value) : Prop :=
  (e.1 = propertiesKey ∨ e.1 = .text "items") ∧ e.2.fields?.isSome = true

/-- Whether two properties have one name, and are nodes that are related or one value that is no
node. -/
def Fields.SameProperty (R : Scalar → Fields → Fields → Prop) (e e' : Scalar × Value) : Prop :=
  e.1 = e'.1 ∧ (e.2.fields? = none ∧ e.2 = e'.2 ∨
    ∃ sub sub', e.2 = .map sub ∧ e'.2 = .map sub' ∧ R e.1 sub sub')

/-- Whether two nodes are the same to a walk. The first has the settings `settings` and the second
has `settings'`; both are reached by `step` from nodes that belong to tables if `inside` says so. -/
structure Fields.Corresponds (settings settings' : Settings)
    (R : Bool → Option Step → Fields → Fields → Prop) (inside : Bool) (step : Option Step)
    (node node' : Fields) : Prop where
  isTable : node'.isTable = node.isTable
  kind : node'.kind = node.kind
  identity : Walk.identity settings' node' = Walk.identity settings node
  badKey : Walk.badKey? node' = Walk.badKey? node
  /-- The entries that are kept, apart from what is below. -/
  kept : List.Forall₂ (fun e e' => e.1 = e'.1 ∧ (e.2 = e'.2 ∨ Branches e))
    (node.filter fun e => settings.keeps e.1) (node'.filter fun e => settings'.keeps e.1)
  properties : Option.Rel
    (List.Forall₂ (SameProperty fun name => R (node.isTable || inside) (some (.property name))))
    (node.mapping? "properties") (node'.mapping? "properties")
  items : Option.Rel (R (node.isTable || inside) (some .items)) (node.mapping? "items")
    (node'.mapping? "items")
  /-- The join, if the node becomes a relation to many. -/
  join : inside = true → (∃ name, step = some (.property name)) → node.kind = .arrayOfTable →
    ∀ owner, Walk.joinOf settings' owner node' = Walk.joinOf settings owner node

namespace Fields

variable {settings settings' : Settings} {R : Bool → Option Step → Fields → Fields → Prop}
  {inside : Bool} {step : Option Step} {node node' : Fields}

theorem forall₂_mappings {S : Scalar → Fields → Fields → Prop} {ps ps' : Fields}
    (h : List.Forall₂ (SameProperty S) ps ps') :
    List.Forall₂ (fun e e' => e.1 = e'.1 ∧ S e.1 e.2 e'.2) ps.mappings ps'.mappings := by
  induction h with
  | nil => exact .nil
  | @cons e e' _ _ he _ ih =>
    obtain ⟨name, v⟩ := e
    obtain ⟨_, v'⟩ := e'
    obtain ⟨rfl, ⟨hv, rfl⟩ | ⟨sub, sub', rfl, rfl, hsub⟩⟩ := he
    · rwa [mappings, mappings, List.filterMap_cons_none (by simp [hv]),
        List.filterMap_cons_none (by simp [hv])]
    · exact .cons ⟨rfl, hsub⟩ ih

/-- **What holds of all visited nodes** may be added to a relation. -/
theorem Corresponds.and_walked {P P' : Fields → Prop}
    (h : node.Corresponds settings settings' R inside step node')
    (hP : ∀ n, node.Walked n → P n) (hP' : ∀ n, node'.Walked n → P' n) :
    node.Corresponds settings settings' (fun inside step n n' => R inside step n n' ∧
      (∀ m, n.Walked m → P m) ∧ ∀ m, n'.Walked m → P' m) inside step node' := by
  refine { h with properties := ?_, items := ?_ }
  · have hproperties := h.properties
    have hmem : ∀ ps ∈ node.mapping? "properties", ∀ e ∈ ps, ∀ sub, e.2 = .map sub →
        ∀ m, Walked sub m → P m := by
      rintro ps hps ⟨name, _⟩ he sub rfl m hm
      exact hP m (hm.of_child (property_mem_children_iff.mpr ⟨ps, hps, he⟩))
    have hmem' : ∀ ps ∈ node'.mapping? "properties", ∀ e ∈ ps, ∀ sub, e.2 = .map sub →
        ∀ m, Walked sub m → P' m := by
      rintro ps hps ⟨name, _⟩ he sub rfl m hm
      exact hP' m (hm.of_child (property_mem_children_iff.mpr ⟨ps, hps, he⟩))
    generalize node.mapping? "properties" = ps, node'.mapping? "properties" = ps'
      at hproperties hmem hmem' ⊢
    cases hproperties with
    | none => exact .none
    | some hps =>
      have hleft := (List.forall₂_and_left _ _).mpr ⟨hmem _ rfl, hps⟩
      have hright := (List.forall₂_and_left _ _).mpr ⟨hmem' _ rfl, hleft.flip⟩
      refine .some (hright.flip.imp ?_)
      rintro e e' ⟨hin', hin, hname, hvalue | ⟨sub, sub', hsub, hsub', hR⟩⟩
      · exact ⟨hname, .inl hvalue⟩
      · exact ⟨hname, .inr ⟨sub, sub', hsub, hsub', hR, hin sub hsub, hin' sub' hsub'⟩⟩
  · have hitems := h.items
    have hmem : ∀ sub ∈ node.mapping? "items", ∀ m, sub.Walked m → P m := fun sub hsub m hm =>
      hP m (hm.of_child (items_mem_children_iff.mpr hsub))
    have hmem' : ∀ sub ∈ node'.mapping? "items", ∀ m, sub.Walked m → P' m := fun sub hsub m hm =>
      hP' m (hm.of_child (items_mem_children_iff.mpr hsub))
    generalize node.mapping? "items" = item, node'.mapping? "items" = item'
      at hitems hmem hmem' ⊢
    cases hitems with
    | none => exact .none
    | some hitem => exact .some ⟨hitem, hmem _ rfl, hmem' _ rfl⟩

/-- **The children of nodes that correspond** are related. -/
theorem Corresponds.children (h : node.Corresponds settings settings' R inside step node') :
    List.Forall₂ (fun c c' => c.1 = c'.1 ∧ R (node.isTable || inside) (some c.1) c.2 c'.2)
      node.children node'.children := by
  have hproperties := h.properties
  have hitems := h.items
  rw [children_eq, children_eq, subschemas, subschemas]
  generalize node.mapping? "properties" = ps, node'.mapping? "properties" = ps',
    node.mapping? "items" = item, node'.mapping? "items" = item' at hproperties hitems ⊢
  refine List.rel_append ?_ ?_
  · cases hproperties with
    | none => exact .nil
    | some hps =>
      exact List.forall₂_map_left_iff.mpr (List.forall₂_map_right_iff.mpr
        ((forall₂_mappings hps).imp fun _ _ he => ⟨congrArg Step.property he.1, he.2⟩))
  · cases hitems with
    | none => exact .nil
    | some hitem => exact .cons ⟨rfl, hitem⟩ .nil

variable (hR : ∀ {inside step node node'}, R inside step node node' →
  node.Corresponds settings settings' R inside step node')
include hR

/-- **Related nodes have related nodes below them**, at the same pointers. -/
theorem forall₂_nodes (h : R inside step node node') :
    List.Forall₂ (fun n n' => n.1 = n'.1 ∧ ∃ inside step, R inside step n.2 n'.2)
      node.nodes node'.nodes := by
  induction node using walkInduction generalizing inside step node' with
  | h node ih =>
    rw [nodes_eq_flatMap, nodes_eq_flatMap]
    refine .cons ⟨rfl, inside, step, h⟩ ?_
    have hchildren := (hR h).children
    generalize node.children = cs, node'.children = cs' at ih hchildren
    induction hchildren with
    | nil => exact .nil
    | @cons c c' _ _ hc _ ihcs =>
      rw [List.forall_mem_cons] at ih
      rw [List.flatMap_cons, List.flatMap_cons]
      refine List.rel_append ?_ (ihcs ih.2)
      refine List.forall₂_map_left_iff.mpr (List.forall₂_map_right_iff.mpr
        ((ih.1 hc.2).imp fun n n' hn => ⟨?_, hn.2⟩))
      rw [hc.1, hn.1]

end Fields

end NestedTables
