import Mathlib.Data.List.Perm.Basic
import NestedTables.Proofs.Schema.Way

/-!
# Schemas with their properties in another order

Two schemas differ in the order of properties if the properties of some visited nodes have been
permuted and nothing else has been changed. `Fields.Reordered` says so of two nodes, entry by entry:
the properties are compared up to a permutation, the items are compared in turn, and everything
else is the same and in the same place.

The relation is symmetric, and what the walk asks of a node has the same answer in both
(`Fields.Reordered.kind_eq`). Steps lead to corresponding children, so ways lead to corresponding
nodes (`Fields.Reordered.exists_down?`), and the two schemas have the same tables, by pointer, with
the same sites.
-/

namespace NestedTables

/-! ### The relation -/

mutual

/-- Two values that differ in nothing but the order of properties, as far as they are nodes. -/
inductive Value.Reordered : Value → Value → Prop
  | refl (v : Value) : Value.Reordered v v
  | node {es es' : Fields} (h : Fields.Reordered es es') : Value.Reordered (.map es) (.map es')

/-- Two nodes that differ in nothing but the order of properties. -/
inductive Fields.Reordered : Fields → Fields → Prop
  | nil : Fields.Reordered [] []
  | same (e : Scalar × Value) {es es' : Fields} (rest : Fields.Reordered es es') :
      Fields.Reordered (e :: es) (e :: es')
  | items {v v' : Value} (h : Value.Reordered v v') {es es' : Fields}
      (rest : Fields.Reordered es es') :
      Fields.Reordered ((.text "items", v) :: es) ((.text "items", v') :: es')
  | properties {ps qs ps' : Fields} (h : Fields.EachReordered ps qs) (hperm : qs.Perm ps')
      {es es' : Fields} (rest : Fields.Reordered es es') :
      Fields.Reordered ((.text "properties", .map ps) :: es) ((.text "properties", .map ps') :: es')

/-- Properties that differ in nothing but the order of their own properties. -/
inductive Fields.EachReordered : Fields → Fields → Prop
  | nil : Fields.EachReordered [] []
  | cons (name : Scalar) {v v' : Value} (h : Value.Reordered v v') {es es' : Fields}
      (rest : Fields.EachReordered es es') :
      Fields.EachReordered ((name, v) :: es) ((name, v') :: es')

end

/-- Two mappings of properties that differ in their order, and in the order inside of them. -/
def Fields.Shuffled (ps ps' : Fields) : Prop :=
  ∃ qs, List.Forall₂ (fun e e' => e.1 = e'.1 ∧ e.2.Reordered e'.2) ps qs ∧ qs.Perm ps'

theorem Fields.eachReordered_iff {ps qs : Fields} : ps.EachReordered qs ↔
    List.Forall₂ (fun e e' => e.1 = e'.1 ∧ e.2.Reordered e'.2) ps qs := by
  constructor
  · intro h
    induction ps generalizing qs with
    | nil =>
      cases h
      exact .nil
    | cons e ps ih =>
      cases h with
      | cons name h rest => exact .cons ⟨rfl, h⟩ (ih rest)
  · intro h
    induction h with
    | nil => exact .nil
    | @cons e e' _ _ he _ ih =>
      obtain ⟨name, v⟩ := e
      obtain ⟨_, v'⟩ := e'
      obtain ⟨rfl, hv⟩ := he
      exact .cons name hv ih

/-- What the entries under a key may differ in. -/
def Value.ReorderedUnder (k : Scalar) (v v' : Value) : Prop :=
  v = v' ∨ (k = .text "items" ∧ v.Reordered v') ∨
    (k = .text "properties" ∧ ∃ ps ps' : Fields, v = .map ps ∧ v' = .map ps' ∧ ps.Shuffled ps')

/-- **Nodes are compared entry by entry.** -/
theorem Fields.reordered_iff {es es' : Fields} : es.Reordered es' ↔
    List.Forall₂ (fun e e' => e.1 = e'.1 ∧ Value.ReorderedUnder e.1 e.2 e'.2) es es' := by
  constructor
  · intro h
    induction es generalizing es' with
    | nil =>
      cases h
      exact .nil
    | cons e es ih =>
      cases h with
      | same e rest => exact .cons ⟨rfl, Or.inl rfl⟩ (ih rest)
      | items h rest => exact .cons ⟨rfl, Or.inr (Or.inl ⟨rfl, h⟩)⟩ (ih rest)
      | properties h hperm rest =>
        exact .cons ⟨rfl, Or.inr (Or.inr ⟨rfl, _, _, rfl, rfl, _, eachReordered_iff.mp h, hperm⟩)⟩
          (ih rest)
  · intro h
    induction h with
    | nil => exact .nil
    | @cons e e' _ _ he _ ih =>
      obtain ⟨k, v⟩ := e
      obtain ⟨_, v'⟩ := e'
      obtain ⟨rfl, rfl | ⟨rfl, hv⟩ | ⟨rfl, ps, ps', rfl, rfl, qs, hqs, hperm⟩⟩ := he
      · exact .same (k, v) ih
      · exact .items hv ih
      · exact .properties (eachReordered_iff.mpr hqs) hperm ih

mutual

theorem Value.Reordered.symm {v v' : Value} : v.Reordered v' → v'.Reordered v
  | .refl v => .refl v
  | .node h => .node h.symm

theorem Fields.Reordered.symm {es es' : Fields} : es.Reordered es' → es'.Reordered es
  | .nil => .nil
  | .same e rest => .same e rest.symm
  | .items h rest => .items h.symm rest.symm
  | .properties h hperm rest => by
    obtain ⟨rs, hrs, hperm'⟩ :=
      List.perm_comp_forall₂ hperm.symm (Fields.eachReordered_iff.mp h.symm)
    exact .properties (Fields.eachReordered_iff.mpr hrs) hperm' rest.symm

theorem Fields.EachReordered.symm {ps qs : Fields} : ps.EachReordered qs → qs.EachReordered ps
  | .nil => .nil
  | .cons name h rest => .cons name h.symm rest.symm

end

theorem Fields.Reordered.refl (es : Fields) : es.Reordered es := by
  induction es with
  | nil => exact .nil
  | cons e es ih => exact .same e ih

theorem Fields.Shuffled.symm {ps ps' : Fields} (h : ps.Shuffled ps') : ps'.Shuffled ps := by
  obtain ⟨qs, hqs, hperm⟩ := h
  have hback : List.Forall₂ (fun e e' => e.1 = e'.1 ∧ e.2.Reordered e'.2) qs ps :=
    (hqs.imp fun _ _ he => ⟨he.1.symm, he.2.symm⟩).flip
  exact List.perm_comp_forall₂ hperm.symm hback

theorem Fields.Shuffled.keys_perm {ps ps' : Fields} (h : ps.Shuffled ps') :
    (Entries.keys ps).Perm (Entries.keys ps') := by
  obtain ⟨qs, hqs, hperm⟩ := h
  have hkeys : Entries.keys ps = Entries.keys qs := by
    clear hperm
    induction hqs with
    | nil => rfl
    | cons he _ ih => exact congrArg₂ List.cons he.1 ih
  exact hkeys ▸ hperm.map _

theorem Fields.Reordered.keys_eq {es es' : Fields} (h : es.Reordered es') :
    Entries.keys es = Entries.keys es' := by
  have hentries := Fields.reordered_iff.mp h
  clear h
  induction hentries with
  | nil => rfl
  | cons he _ ih => exact congrArg₂ List.cons he.1 ih

theorem Fields.Shuffled.exists_mem {ps ps' : Fields} (h : ps.Shuffled ps') {name : Scalar}
    {v : Value} (hmem : (name, v) ∈ ps) : ∃ v', (name, v') ∈ ps' ∧ v.Reordered v' := by
  obtain ⟨qs, hqs, hperm⟩ := h
  obtain ⟨v', hv', hrel⟩ : ∃ v', (name, v') ∈ qs ∧ v.Reordered v' := by
    clear hperm
    induction hqs with
    | nil => simp at hmem
    | @cons e e' _ _ he _ ih =>
      rcases List.mem_cons.mp hmem with rfl | hmem
      · exact ⟨e'.2, List.mem_cons.mpr (Or.inl (Prod.ext he.1 rfl)), he.2⟩
      · obtain ⟨v', hv', hrel⟩ := ih hmem
        exact ⟨v', List.mem_cons_of_mem _ hv', hrel⟩
  exact ⟨v', hperm.subset hv', hrel⟩

/-! ### Changing nodes and properties -/

/-- Giving a key a value in both nodes. -/
theorem Fields.Reordered.put {es es' : Fields} (h : es.Reordered es') {k : Scalar} {v v' : Value}
    (hv : Value.ReorderedUnder k v v') :
    Fields.Reordered (Entries.put k v es) (Entries.put k v' es') := by
  rw [reordered_iff] at h ⊢
  induction h with
  | nil => exact .cons ⟨rfl, hv⟩ .nil
  | @cons e e' _ _ he hrest ih =>
    obtain ⟨j, w⟩ := e
    obtain ⟨_, w'⟩ := e'
    obtain ⟨rfl, hw⟩ := he
    by_cases hj : j = k
    · simpa [Entries.put, hj] using ⟨hv, hrest⟩
    · simpa [Entries.put, hj] using ⟨hw, ih⟩

/-- Leaving some keys out of both nodes. -/
theorem Fields.Reordered.filter {es es' : Fields} (h : es.Reordered es') (keep : Scalar → Bool) :
    Fields.Reordered (es.filter fun e => keep e.1) (es'.filter fun e => keep e.1) :=
  reordered_iff.mpr
    (List.rel_filter (fun _ _ he => (congrArg (keep · = true) he.1).to_iff) (reordered_iff.mp h))

theorem Fields.Shuffled.of_perm {ps ps' : Fields} (h : ps.Perm ps') : ps.Shuffled ps' :=
  ⟨ps, List.forall₂_same.mpr fun _ _ => ⟨rfl, .refl _⟩, h⟩

theorem Fields.Shuffled.filter {ps ps' : Fields} (h : ps.Shuffled ps') (keep : Scalar → Bool) :
    Fields.Shuffled (ps.filter fun e => keep e.1) (ps'.filter fun e => keep e.1) := by
  obtain ⟨qs, hqs, hperm⟩ := h
  exact ⟨_, List.rel_filter (fun _ _ he => (congrArg (keep · = true) he.1).to_iff) hqs,
    hperm.filter _⟩

theorem Fields.Shuffled.append {ps ps' rs rs' : Fields} (h : ps.Shuffled ps')
    (h' : rs.Shuffled rs') : Fields.Shuffled (ps ++ rs) (ps' ++ rs') := by
  obtain ⟨qs, hqs, hperm⟩ := h
  obtain ⟨ts, hts, hperm'⟩ := h'
  exact ⟨qs ++ ts, List.rel_append hqs hts, hperm.append hperm'⟩

/-- **Changing shuffled properties one by one**, each into some properties. -/
theorem Fields.Shuffled.flatMap {ps ps' : Fields} (h : ps.Shuffled ps')
    {f f' : Scalar × Value → Fields}
    (hf : ∀ name v v', (name, v) ∈ ps → (name, v') ∈ ps' → v.Reordered v' →
      List.Forall₂ (fun e e' => e.1 = e'.1 ∧ e.2.Reordered e'.2) (f (name, v)) (f' (name, v'))) :
    Fields.Shuffled (ps.flatMap f) (ps'.flatMap f') := by
  obtain ⟨qs, hqs, hperm⟩ := h
  refine ⟨qs.flatMap f', ?_, hperm.flatMap_right f'⟩
  replace hf : ∀ name v v', (name, v) ∈ ps → (name, v') ∈ qs → v.Reordered v' → _ :=
    fun name v v' hv hv' => hf name v v' hv (hperm.subset hv')
  clear hperm
  induction hqs with
  | nil => exact .nil
  | @cons e e' ps qs he _ ih =>
    obtain ⟨name, v⟩ := e
    obtain ⟨_, v'⟩ := e'
    obtain ⟨rfl, hv⟩ := he
    rw [List.flatMap_cons, List.flatMap_cons]
    refine List.rel_append (hf name v v' List.mem_cons_self List.mem_cons_self hv)
      (ih fun name v v' hv hv' => ?_)
    exact hf name v v' (List.mem_cons_of_mem _ hv) (List.mem_cons_of_mem _ hv')

/-! ### Keyed documents -/

mutual

theorem Value.Reordered.isKeyed {v v' : Value} : v.Reordered v' → v.isKeyed = true →
    v'.isKeyed = true
  | .refl _, hkeyed => hkeyed
  | .node h, hkeyed => h.isKeyed hkeyed

/-- **A schema in another order is keyed** if the schema is. -/
theorem Fields.Reordered.isKeyed {es es' : Fields} (h : es.Reordered es')
    (hkeyed : es.isKeyed = true) : es'.isKeyed = true := by
  rw [Fields.isKeyed, Value.isKeyed, Bool.and_eq_true, decide_eq_true_eq] at hkeyed ⊢
  exact ⟨h.keys_eq ▸ hkeyed.1, h.entriesKeyed hkeyed.2⟩

theorem Fields.Reordered.entriesKeyed {es es' : Fields} : es.Reordered es' →
    Value.entriesKeyed es = true → Value.entriesKeyed es' = true
  | .nil, hkeyed => hkeyed
  | .same (k, v) rest, hkeyed => by
    rw [Value.entriesKeyed, Bool.and_eq_true] at hkeyed ⊢
    exact ⟨hkeyed.1, rest.entriesKeyed hkeyed.2⟩
  | .items h rest, hkeyed => by
    rw [Value.entriesKeyed, Bool.and_eq_true, Bool.and_eq_true] at hkeyed ⊢
    exact ⟨⟨hkeyed.1.1, h.isKeyed hkeyed.1.2⟩, rest.entriesKeyed hkeyed.2⟩
  | .properties h hperm rest, hkeyed => by
    rw [Value.entriesKeyed, Bool.and_eq_true, Bool.and_eq_true, Value.isKeyed, Bool.and_eq_true,
      decide_eq_true_eq] at hkeyed ⊢
    obtain ⟨⟨htext, hdistinct, hentries⟩, hes⟩ := hkeyed
    have hqs := h.entriesKeyed hentries
    refine ⟨⟨htext, ?_, ?_⟩, rest.entriesKeyed hes⟩
    · have hkeys : (Entries.keys _).Perm (Entries.keys _) :=
        Fields.Shuffled.keys_perm ⟨_, Fields.eachReordered_iff.mp h, hperm⟩
      exact hkeys.nodup_iff.mp hdistinct
    · rw [Value.entriesKeyed_iff] at hqs ⊢
      exact fun e he => hqs e (hperm.symm.subset he)

theorem Fields.EachReordered.entriesKeyed {ps qs : Fields} : ps.EachReordered qs →
    Value.entriesKeyed ps = true → Value.entriesKeyed qs = true
  | .nil, hkeyed => hkeyed
  | .cons name h rest, hkeyed => by
    rw [Value.entriesKeyed, Bool.and_eq_true, Bool.and_eq_true] at hkeyed ⊢
    exact ⟨⟨hkeyed.1.1, h.isKeyed hkeyed.1.2⟩, rest.entriesKeyed hkeyed.2⟩

end

/-! ### What a node says -/

/-- Two nodes are nodes alike. -/
theorem Value.Reordered.fields? {v v' : Value} (h : v.Reordered v') :
    Option.Rel Fields.Reordered v.fields? v'.fields? := by
  cases h with
  | refl v =>
    cases v with
    | map es => exact .some (.refl es)
    | _ => exact .none
  | node h => exact .some h

namespace Fields.Reordered

variable {node node' : Fields} (h : node.Reordered node')
include h

/-- What is under a key. -/
theorem rel_get? (k : Scalar) :
    Option.Rel (Value.ReorderedUnder k) (Entries.get? k node) (Entries.get? k node') := by
  have hentries := reordered_iff.mp h
  induction hentries with
  | nil => exact .none
  | @cons e e' _ _ he hrest ih =>
    obtain ⟨j, v⟩ := e
    obtain ⟨_, v'⟩ := e'
    obtain ⟨rfl, hv⟩ := he
    rw [Entries.get?_cons, Entries.get?_cons]
    split
    · next hj => exact .some (hj ▸ hv)
    · exact ih (reordered_iff.mpr hrest)

/-- Under other keys there is the same. -/
theorem value?_eq {key : String} (hitems : key ≠ "items") (hproperties : key ≠ "properties") :
    node.value? key = node'.value? key := by
  unfold value?
  have hrel := h.rel_get? (.text key)
  generalize Entries.get? (.text key) node = v, Entries.get? (.text key) node' = v' at hrel ⊢
  cases hrel with
  | none => rfl
  | some hv =>
    rcases hv with rfl | ⟨hk, -⟩ | ⟨hk, -⟩
    · rfl
    · exact absurd (Scalar.text.inj hk) hitems
    · exact absurd (Scalar.text.inj hk) hproperties

theorem rel_items :
    Option.Rel Fields.Reordered (node.mapping? "items") (node'.mapping? "items") := by
  unfold mapping? value?
  have hrel := h.rel_get? (.text "items")
  generalize Entries.get? (.text "items") node = v,
    Entries.get? (.text "items") node' = v' at hrel ⊢
  cases hrel with
  | none => exact .none
  | some hv =>
    rcases hv with rfl | ⟨-, hv⟩ | ⟨hk, -⟩
    · exact (Value.Reordered.refl _).fields?
    · exact hv.fields?
    · simp at hk

theorem rel_properties :
    Option.Rel Fields.Shuffled (node.mapping? "properties") (node'.mapping? "properties") := by
  unfold mapping? value?
  have hrel := h.rel_get? (.text "properties")
  generalize Entries.get? (.text "properties") node = v,
    Entries.get? (.text "properties") node' = v' at hrel ⊢
  cases hrel with
  | none => exact .none
  | @some v v' hv =>
    rcases hv with rfl | ⟨hk, -⟩ | ⟨-, ps, ps', rfl, rfl, hps⟩
    · cases v with
      | map ps => exact .some (.of_perm (.refl ps))
      | _ => exact .none
    · simp at hk
    · exact .some hps

theorem isSome_items : (node.mapping? "items").isSome = (node'.mapping? "items").isSome := by
  have hrel := h.rel_items
  generalize node.mapping? "items" = sub, node'.mapping? "items" = sub' at hrel ⊢
  cases hrel <;> rfl

theorem isSome_properties :
    (node.mapping? "properties").isSome = (node'.mapping? "properties").isSome := by
  have hrel := h.rel_properties
  generalize node.mapping? "properties" = ps, node'.mapping? "properties" = ps' at hrel ⊢
  cases hrel <;> rfl

theorem holds_eq {key : String} (text : String) (hitems : key ≠ "items")
    (hproperties : key ≠ "properties") : node.holds key text = node'.holds key text := by
  rw [holds, holds, h.value?_eq hitems hproperties]

theorem isTable_eq : node.isTable = node'.isTable := by
  rw [isTable, isTable, h.value?_eq (by decide) (by decide), h.value?_eq (by decide) (by decide),
    h.holds_eq "object" (by decide) (by decide), h.isSome_properties]

/-- Both nodes are of one kind. -/
theorem kind_eq : node.kind = node'.kind := by
  have harray : node.isArray = node'.isArray := by
    rw [isArray, isArray, h.holds_eq "array" (by decide) (by decide), h.isSome_items]
  have htype : node.value "type" = node'.value "type" := by
    rw [value, value, h.value?_eq (by decide) (by decide)]
  have hitems : (node.value "items").isTable = (node'.value "items").isTable := by
    unfold value value?
    have hrel := h.rel_get? (.text "items")
    generalize Entries.get? (.text "items") node = v, Entries.get? (.text "items") node' = v'
      at hrel ⊢
    cases hrel with
    | none => rfl
    | some hv =>
      rcases hv with rfl | ⟨-, hv⟩ | ⟨hk, -⟩
      · rfl
      · cases hv with
        | refl v => rfl
        | node h => exact h.isTable_eq
      · simp at hk
  rw [kind, kind, h.isTable_eq, harray, hitems, htype, h.isSome_properties]

end Fields.Reordered

/-- Two values are of one kind. -/
theorem Value.Reordered.nodeKind_eq {v v' : Value} (h : v.Reordered v') :
    v.nodeKind = v'.nodeKind := by
  cases h with
  | refl => rfl
  | node h => exact h.kind_eq

/-! ### Ways -/

namespace Fields.Reordered

variable {node node' : Fields} (h : node.Reordered node')
include h

theorem exists_items {sub : Fields} (hsub : node.mapping? "items" = some sub) :
    ∃ sub', node'.mapping? "items" = some sub' ∧ sub.Reordered sub' := by
  have hrel := h.rel_items
  rw [hsub] at hrel
  generalize node'.mapping? "items" = found at hrel ⊢
  cases hrel with
  | some hrel => exact ⟨_, rfl, hrel⟩

theorem exists_properties {ps : Fields} (hps : node.mapping? "properties" = some ps) :
    ∃ ps', node'.mapping? "properties" = some ps' ∧ ps.Shuffled ps' := by
  have hrel := h.rel_properties
  rw [hps] at hrel
  generalize node'.mapping? "properties" = found at hrel ⊢
  cases hrel with
  | some hrel => exact ⟨_, rfl, hrel⟩

/-- The children correspond by the steps to them. -/
theorem exists_child {step : Step} {sub : Fields} (hc : (step, sub) ∈ node.children) :
    ∃ sub', (step, sub') ∈ node'.children ∧ sub.Reordered sub' := by
  cases step with
  | items =>
    obtain ⟨sub', hsub', hrel⟩ := h.exists_items (items_mem_children_iff.mp hc)
    exact ⟨sub', items_mem_children_iff.mpr hsub', hrel⟩
  | property name =>
    obtain ⟨ps, hps, hmem⟩ := property_mem_children_iff.mp hc
    obtain ⟨ps', hps', hshuffled⟩ := h.exists_properties hps
    obtain ⟨v', hmem', hrel⟩ := hshuffled.exists_mem hmem
    cases hrel with
    | refl => exact ⟨sub, property_mem_children_iff.mpr ⟨ps', hps', hmem'⟩, .refl sub⟩
    | node hrel => exact ⟨_, property_mem_children_iff.mpr ⟨ps', hps', hmem'⟩, hrel⟩

/-- **Ways lead to corresponding nodes.** -/
theorem exists_down? (hkeyed : node.isKeyed = true) (hkeyed' : node'.isKeyed = true)
    {way : List Step} {sub : Fields} (hsub : node.down? way = some sub) :
    ∃ sub', node'.down? way = some sub' ∧ sub.Reordered sub' := by
  induction way generalizing node node' with
  | nil => exact ⟨node', rfl, Option.some.inj hsub ▸ h⟩
  | cons step way ih =>
    obtain ⟨mid, hmid, hdown⟩ := Option.bind_eq_some_iff.mp hsub
    obtain ⟨mid', hmid', hrel⟩ := h.exists_child (Entries.mem_of_get?_eq_some hmid)
    rw [down?_cons, (get?_children_iff hkeyed').mpr hmid']
    exact ih hrel (isKeyed_of_mem_children hkeyed (Entries.mem_of_get?_eq_some hmid))
      (isKeyed_of_mem_children hkeyed' hmid') hdown

/-- The tables on a way are on the way in both schemas. -/
theorem clear (hkeyed : node.isKeyed = true) (hkeyed' : node'.isKeyed = true) {way : List Step}
    (hclear : node.Clear way) : node'.Clear way := by
  intro mid hne hinit n' hn'
  obtain ⟨n, hn, hrel⟩ := h.symm.exists_down? hkeyed' hkeyed hn'
  exact hrel.isTable_eq.trans (hclear mid hne hinit n hn)

/-- **The tables correspond**, by their pointers. -/
theorem exists_table (hkeyed : node.isKeyed = true) (hkeyed' : node'.isKeyed = true)
    {t : Pointer × Tree} (ht : t ∈ (Tree.ofFields node).tables) :
    ∃ t' ∈ (Tree.ofFields node').tables, t'.1 = t.1 ∧ t.2.fields.Reordered t'.2.fields := by
  obtain ⟨way, table, hdown, htable, rfl⟩ := (Tree.mem_tables_iff_down? hkeyed).mp ht
  obtain ⟨table', hdown', hrel⟩ := h.exists_down? hkeyed hkeyed' hdown
  exact ⟨_, (Tree.mem_tables_iff_down? hkeyed').mpr
    ⟨way, table', hdown', hrel.isTable_eq ▸ htable, rfl⟩, rfl, hrel⟩

/-- **The sites of a table correspond**, by their ways and names. -/
theorem exists_site (hkeyed : node.isKeyed = true) (hkeyed' : node'.isKeyed = true) {s : Site}
    (hs : s ∈ (Tree.ofFields node).sites) :
    ∃ s' ∈ (Tree.ofFields node').sites, s'.way = s.way ∧ s'.name = s.name ∧
      s.child.fields.Reordered s'.child.fields := by
  obtain ⟨sub, hdown, hclear, htree, hkind⟩ := (Tree.mem_sites_iff hkeyed).mp hs
  obtain ⟨sub', hdown', hrel⟩ := h.exists_down? hkeyed hkeyed' hdown
  refine ⟨⟨s.way, s.name, Tree.ofFields sub'⟩, (Tree.mem_sites_iff hkeyed').mpr
    ⟨sub', hdown', h.clear hkeyed hkeyed' hclear, rfl, hrel.kind_eq ▸ hkind⟩, rfl, rfl, ?_⟩
  rw [htree]
  exact hrel

end Fields.Reordered

/-- Corresponding sites lead to corresponding tables. -/
theorem Site.reordered_target {s s' : Site} (h : s.child.fields.Reordered s'.child.fields) :
    s.target.Reordered s'.target := by
  rw [target, target, ← h.isTable_eq]
  split
  · exact h
  · cases hitems : s.child.fields.mapping? "items" with
    | none =>
      have hnone := h.isSome_items
      rw [hitems, Option.isSome_none, eq_comm, Option.isSome_eq_false_iff,
        Option.isNone_iff_eq_none] at hnone
      rw [hnone]
      exact .nil
    | some items =>
      obtain ⟨items', hitems', hrel⟩ := h.exists_items hitems
      rw [hitems']
      exact hrel

end NestedTables
