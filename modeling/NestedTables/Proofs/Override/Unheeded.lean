import NestedTables.Proofs.Override.Findings
import NestedTables.Proofs.Override.Reordered

/-!
# Overrides that are not heeded

Two kinds of overrides make no difference to a compilation. A key with the prefix that is none of
the five, nor a keyword, is not known; and an override of a join is not heeded at a node that does
not become a relation to many, though it has to be in order (`Override.Unheeded`).

`Fields.SameHeeded` says of two nodes that they are the same but for such overrides, which may have
been added to any visited node and removed from any. It knows of a node whether the node above it
belongs to a table, and the step to the node, since both decide whether a join is heeded there.

Such nodes correspond (`Fields.AlikeAt.corresponds`), and the rules find the same errors in such
schemas (`Override.errors_checkAll_eq`).
-/

namespace NestedTables

/-- Whether a node becomes a relation to many: it is an array of tables, and a property of a node
that belongs to a table. -/
def Fields.becomesMany (inside : Bool) (step : Option Step) (node : Fields) : Bool :=
  match step with
  | some (.property _) => inside && node.kind = .arrayOfTable
  | _ => false

/-- Whether an entry of a node is an override that makes no difference, in a schema with the given
tables; `joins` says whether joins are heeded at the node. -/
inductive Override.Unheeded (settings : Settings) (tables : List String) (joins : Bool) :
    Scalar × Value → Prop
  | unknown {key : String} (v : Value) (howns : settings.owns key = true)
      (hknown : key ∉ settings.allKeys) (hword : key ∉ Fields.keywords) :
      Unheeded settings tables joins (.text key, v)
  | joinTo {s : String} {ref : ColumnRef} (hjoins : joins = false)
      (hblank : Text.allBlank s = false) (href : ColumnRef.ofText? s = some ref) :
      Unheeded settings tables joins (.text (settings.key .joinToColumn), .text s)
  | through {v : Value} (hjoins : joins = false)
      (hvalid : throughComplaint? settings tables v = none) :
      Unheeded settings tables joins (.text (settings.key .joinThrough), v)

section Relation

variable (settings : Settings) (tables : List String)

mutual

/-- Two values that are the same but for overrides that make no difference, as far as they are
nodes; `inside` and `step` say how they are reached. -/
inductive Value.SameHeeded : (inside : Bool) → (step : Option Step) → Value → Value → Prop
  | refl (inside : Bool) (step : Option Step) (v : Value) : Value.SameHeeded inside step v v
  | node {inside : Bool} {step : Option Step} {es es' : Fields}
      (h : Fields.SameHeeded (es.isTable || inside) (es.becomesMany inside step) es es') :
      Value.SameHeeded inside step (.map es) (.map es')

/-- Two nodes, entry by entry, that are the same but for overrides that make no difference; `within`
says whether they belong to a table, and `joins` whether joins are heeded at them. -/
inductive Fields.SameHeeded : (within joins : Bool) → Fields → Fields → Prop
  | nil (within joins : Bool) : Fields.SameHeeded within joins [] []
  | same (e : Scalar × Value) {within joins : Bool} {es es' : Fields}
      (rest : Fields.SameHeeded within joins es es') :
      Fields.SameHeeded within joins (e :: es) (e :: es')
  | added {e : Scalar × Value} {within joins : Bool} (h : Override.Unheeded settings tables joins e)
      {es es' : Fields} (rest : Fields.SameHeeded within joins es es') :
      Fields.SameHeeded within joins es (e :: es')
  | removed {e : Scalar × Value} {within joins : Bool}
      (h : Override.Unheeded settings tables joins e) {es es' : Fields}
      (rest : Fields.SameHeeded within joins es es') :
      Fields.SameHeeded within joins (e :: es) es'
  | items {v v' : Value} {within joins : Bool}
      (h : Value.SameHeeded within (some .items) v v') {es es' : Fields}
      (rest : Fields.SameHeeded within joins es es') :
      Fields.SameHeeded within joins ((.text "items", v) :: es) ((.text "items", v') :: es')
  | properties {ps ps' : Fields} {within joins : Bool} (h : Fields.EachSameHeeded within ps ps')
      {es es' : Fields} (rest : Fields.SameHeeded within joins es es') :
      Fields.SameHeeded within joins ((.text "properties", .map ps) :: es)
        ((.text "properties", .map ps') :: es')

/-- Properties that are the same but for overrides that make no difference. -/
inductive Fields.EachSameHeeded : (within : Bool) → Fields → Fields → Prop
  | nil (within : Bool) : Fields.EachSameHeeded within [] []
  | cons (name : Scalar) {v v' : Value} {within : Bool}
      (h : Value.SameHeeded within (some (.property name)) v v') {es es' : Fields}
      (rest : Fields.EachSameHeeded within es es') :
      Fields.EachSameHeeded within ((name, v) :: es) ((name, v') :: es')

end

/-- Whether two nodes that are reached in one way are the same but for overrides that make no
difference. -/
def Fields.SameHeededAt (inside : Bool) (step : Option Step) (node node' : Fields) : Prop :=
  node.SameHeeded settings tables (node.isTable || inside) (node.becomesMany inside step) node'

end Relation

variable {settings : Settings} {tables : List String} {within joins : Bool}

theorem Override.Unheeded.keeps {e : Scalar × Value}
    (h : Override.Unheeded settings tables joins e) : settings.keeps e.1 = false := by
  cases h with
  | unknown _ howns => simp [Settings.keeps, howns]
  | joinTo | through => simp [Settings.keeps, Settings.key, Settings.owns_keyWith]

/-! ### Look-up -/

/-- What the values under a key may differ in. -/
def Value.SameHeededUnder (settings : Settings) (tables : List String) (within : Bool) (k : Scalar)
    (v v' : Value) : Prop :=
  v = v' ∨ (k = .text "items" ∧ v.SameHeeded settings tables within (some .items) v') ∨
    (k = .text "properties" ∧ ∃ ps ps' : Fields, v = .map ps ∧ v' = .map ps' ∧
      ps.EachSameHeeded settings tables within ps')

/-- **What is under a key** corresponds, or it is not heeded in either node. -/
theorem Fields.SameHeeded.get? {node node' : Fields} (hd : Entries.Distinct node)
    (hd' : Entries.Distinct node') (k : Scalar) :
    node.SameHeeded settings tables within joins node' →
    Option.Rel (Value.SameHeededUnder settings tables within k) (Entries.get? k node)
        (Entries.get? k node') ∨
      (∀ v, Entries.get? k node = some v → Override.Unheeded settings tables joins (k, v)) ∧
        ∀ v, Entries.get? k node' = some v → Override.Unheeded settings tables joins (k, v)
  | .nil _ _ => .inl .none
  | .same e rest => by
    obtain ⟨j, v⟩ := e
    have ih := rest.get? (List.nodup_cons.mp hd).2 (List.nodup_cons.mp hd').2 k
    rw [Entries.get?_cons, Entries.get?_cons]
    split
    · exact .inl (.some (.inl rfl))
    · exact ih
  | .added (e := e) h rest => by
    obtain ⟨j, v⟩ := e
    obtain ⟨hj, hrest⟩ := List.nodup_cons.mp hd'
    have ih := rest.get? hd hrest k
    rw [Entries.get?_cons]
    split
    · next heq =>
      -- the key is not there again, and what is there in the other node is not heeded
      subst heq
      rw [Entries.get?_eq_none_iff.mpr hj] at ih
      generalize Entries.get? j node = w at ih ⊢
      rcases ih with hrel | ⟨hunheeded, -⟩
      · cases hrel
        exact .inr ⟨by simp, by simpa using h⟩
      · exact .inr ⟨hunheeded, by simpa using h⟩
    · exact ih
  | .removed (e := e) h rest => by
    obtain ⟨j, v⟩ := e
    obtain ⟨hj, hrest⟩ := List.nodup_cons.mp hd
    have ih := rest.get? hrest hd' k
    rw [Entries.get?_cons]
    split
    · next heq =>
      subst heq
      rw [Entries.get?_eq_none_iff.mpr hj] at ih
      generalize Entries.get? j node' = w at ih ⊢
      rcases ih with hrel | ⟨-, hunheeded⟩
      · cases hrel
        exact .inr ⟨by simpa using h, by simp⟩
      · exact .inr ⟨by simpa using h, hunheeded⟩
    · exact ih
  | .items h rest => by
    have ih := rest.get? (List.nodup_cons.mp hd).2 (List.nodup_cons.mp hd').2 k
    rw [Entries.get?_cons, Entries.get?_cons]
    split
    · next heq => exact .inl (.some (.inr (.inl ⟨heq.symm, h⟩)))
    · exact ih
  | .properties h rest => by
    have ih := rest.get? (List.nodup_cons.mp hd).2 (List.nodup_cons.mp hd').2 k
    rw [Entries.get?_cons, Entries.get?_cons]
    split
    · next heq => exact .inl (.some (.inr (.inr ⟨heq.symm, _, _, rfl, rfl, h⟩)))
    · exact ih
termination_by node.length + node'.length

/-! ### What a node says of itself -/

/-- What is under a keyword is heeded. -/
theorem Override.Unheeded.not_keyword {key : String} {v : Value}
    (h : Override.Unheeded settings tables joins (.text key, v)) : key ∉ Fields.keywords := by
  have hdash : ∀ word ∈ Fields.keywords, '-' ∉ word.toList := by decide
  cases h with
  | unknown _ _ _ hword => exact hword
  | joinTo | through => exact fun hmem => settings.key_ne _ (hdash _ hmem) rfl

/-- Only overrides of joins make no difference, and only where joins are not heeded. -/
theorem Override.Unheeded.joins_eq_false {o : Override} {v : Value}
    (h : Override.Unheeded settings tables joins (.text (settings.key o), v)) :
    joins = false ∧ (o = .joinToColumn ∨ o = .joinThrough) := by
  generalize hkey : settings.key o = key at h
  cases h with
  | unknown _ _ hknown =>
    exact absurd (hkey ▸ settings.key_mem_allKeys o) hknown
  | joinTo hjoins => exact ⟨hjoins, .inl (settings.key_injective hkey)⟩
  | through hjoins => exact ⟨hjoins, .inr (settings.key_injective hkey)⟩

/-- There is nothing to complain about in a textual override that is not heeded. -/
theorem Override.textComplaint?_of_unheeded {o : Override} (ho : o ∈ Override.textual)
    {node : Fields} (h : ∀ v, settings.override? o node = some v →
      Override.Unheeded settings tables joins (.text (settings.key o), v)) :
    Override.textComplaint? settings o node = none := by
  unfold textComplaint?
  cases hover : settings.override? o node with
  | none => rfl
  | some v =>
    have hv := h v hover
    generalize hkey : settings.key o = key at hv
    cases hv with
    | unknown _ _ hknown =>
      exact absurd (hkey ▸ settings.key_mem_allKeys o) hknown
    | joinTo _ hblank href => simp [hblank, href]
    | through =>
      obtain rfl := settings.key_injective hkey
      simp [Override.textual] at ho

theorem Override.Unheeded.throughComplaint? {v : Value}
    (h : Override.Unheeded settings tables joins (.text (settings.key .joinThrough), v)) :
    throughComplaint? settings tables v = none := by
  generalize hkey : settings.key .joinThrough = key at h
  cases h with
  | unknown _ _ hknown =>
    exact absurd (hkey ▸ settings.key_mem_allKeys _) hknown
  | joinTo => exact absurd (settings.key_injective hkey) (by decide)
  | through _ hvalid => exact hvalid

section Node

variable {node node' : Fields} (hd : Entries.Distinct node) (hd' : Entries.Distinct node')
  (h : node.SameHeeded settings tables within joins node')
include hd hd' h

namespace Fields.SameHeeded

/-- What is under a key that holds no nodes is the same, or it is not heeded in either node. -/
theorem value?_eq_or {key : String} (hbelow : key ≠ "properties" ∧ key ≠ "items") :
    node'.value? key = node.value? key ∨
      (∀ v, node.value? key = some v → Override.Unheeded settings tables joins (.text key, v)) ∧
        ∀ v, node'.value? key = some v → Override.Unheeded settings tables joins (.text key, v) := by
  refine (h.get? hd hd' (.text key)).imp_left fun hrel => ?_
  rw [value?, value?]
  generalize Entries.get? (.text key) node = v, Entries.get? (.text key) node' = v' at hrel ⊢
  cases hrel with
  | none => rfl
  | some hunder =>
    rcases hunder with rfl | ⟨heq, -⟩ | ⟨heq, -⟩
    · rfl
    · exact absurd (Scalar.text.inj heq) hbelow.2
    · exact absurd (Scalar.text.inj heq) hbelow.1

/-- What is under a keyword corresponds. -/
theorem rel_value? {key : String} (hkey : key ∈ keywords) :
    Option.Rel (Value.SameHeededUnder settings tables within (.text key)) (node.value? key)
      (node'.value? key) := by
  rcases h.get? hd hd' (.text key) with hrel | ⟨hleft, hright⟩
  · exact hrel
  · have hnone : node.value? key = none :=
      Option.eq_none_iff_forall_ne_some.mpr fun v hv => (hleft v hv).not_keyword hkey
    have hnone' : node'.value? key = none :=
      Option.eq_none_iff_forall_ne_some.mpr fun v hv => (hright v hv).not_keyword hkey
    rw [hnone, hnone']
    exact .none

/-- What is under a keyword that holds no nodes is the same. -/
theorem value?_eq {key : String} (hkey : key ∈ [identityKey, "type", "title"]) :
    node'.value? key = node.value? key := by
  have hword : ∀ key ∈ [identityKey, "type", "title"],
      (key ≠ "properties" ∧ key ≠ "items") ∧ key ∈ keywords := by decide
  obtain ⟨hbelow, hmem⟩ := hword key hkey
  rcases value?_eq_or hd hd' h hbelow with heq | ⟨hleft, hright⟩
  · exact heq
  · rw [Option.eq_none_iff_forall_ne_some.mpr fun v hv => (hleft v hv).not_keyword hmem,
      Option.eq_none_iff_forall_ne_some.mpr fun v hv => (hright v hv).not_keyword hmem]

/-- An override is the same, or it is not heeded in either node. -/
theorem override?_eq_or (o : Override) :
    settings.override? o node' = settings.override? o node ∨
      (∀ v, settings.override? o node = some v →
        Override.Unheeded settings tables joins (.text (settings.key o), v)) ∧
      ∀ v, settings.override? o node' = some v →
        Override.Unheeded settings tables joins (.text (settings.key o), v) :=
  value?_eq_or hd hd' h ⟨settings.key_ne o (by decide), settings.key_ne o (by decide)⟩

/-- An override that is heeded is the same. -/
theorem override?_eq {o : Override} (ho : joins = true ∨ o ≠ .joinToColumn ∧ o ≠ .joinThrough) :
    settings.override? o node' = settings.override? o node := by
  have hheeded : ∀ v, ¬ Override.Unheeded settings tables joins (.text (settings.key o), v) := by
    intro v hunheeded
    obtain ⟨hjoins, heq⟩ := hunheeded.joins_eq_false
    rcases ho with hjoins' | ⟨hto, hthrough⟩
    · simp [hjoins] at hjoins'
    · exact heq.elim hto hthrough
  rcases override?_eq_or hd hd' h o with heq | ⟨hleft, hright⟩
  · exact heq
  · rw [Option.eq_none_iff_forall_ne_some.mpr fun v hv => hheeded v (hleft v hv),
      Option.eq_none_iff_forall_ne_some.mpr fun v hv => hheeded v (hright v hv)]

end Fields.SameHeeded

end Node

/-! ### What is below a node -/

namespace Fields

theorem SameHeeded.refl (node : Fields) : node.SameHeeded settings tables within joins node := by
  induction node with
  | nil => exact .nil _ _
  | cons e _ ih => exact .same e ih

/-- A value that is a node is one that is the same but for overrides that make no difference. -/
theorem rel_fields? {step : Option Step} {v v' : Value} :
    v.SameHeeded settings tables within step v' →
    v.fields? = none ∧ v = v' ∨ ∃ sub sub', v = .map sub ∧ v' = .map sub' ∧
      SameHeededAt settings tables within step sub sub'
  | .refl _ _ v => by
    cases v with
    | map es => exact .inr ⟨es, es, rfl, rfl, .refl es⟩
    | _ => exact .inl ⟨rfl, rfl⟩
  | .node h => .inr ⟨_, _, rfl, rfl, h⟩

theorem EachSameHeeded.refl (ps : Fields) : ps.EachSameHeeded settings tables within ps := by
  induction ps with
  | nil => exact .nil _
  | cons e _ ih => exact .cons e.1 (.refl _ _ e.2) ih

theorem EachSameHeeded.forall₂ {ps ps' : Fields} :
    ps.EachSameHeeded settings tables within ps' →
    List.Forall₂ (SameProperty fun name => SameHeededAt settings tables within
      (some (.property name))) ps ps'
  | .nil _ => .nil
  | .cons _ h rest => .cons ⟨rfl, rel_fields? h⟩ rest.forall₂

/-- What is kept of two nodes is the same, apart from what is below. -/
theorem SameHeeded.kept {node node' : Fields} :
    node.SameHeeded settings tables within joins node' →
    List.Forall₂ (fun e e' => e.1 = e'.1 ∧ (e.2 = e'.2 ∨ Branches e))
      (node.filter fun e => settings.keeps e.1) (node'.filter fun e => settings.keeps e.1)
  | .nil _ _ => .nil
  | .same e rest => by
    rw [List.filter_cons, List.filter_cons]
    split
    · exact .cons ⟨rfl, .inl rfl⟩ rest.kept
    · exact rest.kept
  | .added h rest => by
    rw [List.filter_cons_of_neg (by simp [h.keeps])]
    exact rest.kept
  | .removed h rest => by
    rw [List.filter_cons_of_neg (by simp [h.keeps])]
    exact rest.kept
  | .items h rest => by
    rw [List.filter_cons, List.filter_cons]
    split
    · refine .cons ⟨rfl, ?_⟩ rest.kept
      rcases rel_fields? h with ⟨-, heq⟩ | ⟨sub, -, rfl, -, -⟩
      · exact .inl heq
      · exact .inr ⟨.inr rfl, rfl⟩
    · exact rest.kept
  | .properties h rest => by
    rw [List.filter_cons, List.filter_cons]
    split
    · exact .cons ⟨rfl, .inr ⟨.inl rfl, rfl⟩⟩ rest.kept
    · exact rest.kept

theorem SameHeeded.badKey?_eq {node node' : Fields} :
    node.SameHeeded settings tables within joins node' → Walk.badKey? node' = Walk.badKey? node
  | .nil _ _ => rfl
  | .same e rest => by
    have ih := rest.badKey?_eq
    unfold Walk.badKey? Entries.keys at ih ⊢
    rw [List.map_cons, List.map_cons, List.find?_cons, List.find?_cons, ih]
  | .added h rest => by
    cases h <;> exact rest.badKey?_eq
  | .removed h rest => by
    cases h <;> exact rest.badKey?_eq
  | .items h rest => rest.badKey?_eq
  | .properties h rest => rest.badKey?_eq

section Node

variable {node node' : Fields} (hd : Entries.Distinct node) (hd' : Entries.Distinct node')
include hd hd'

/-- The mappings that the nodes below are in correspond. -/
theorem SameHeeded.rel_mapping? (h : node.SameHeeded settings tables within joins node') :
    Option.Rel (List.Forall₂ (SameProperty fun name => SameHeededAt settings tables within
        (some (.property name)))) (node.mapping? "properties") (node'.mapping? "properties") ∧
      Option.Rel (SameHeededAt settings tables within (some .items)) (node.mapping? "items")
        (node'.mapping? "items") := by
  have hproperties := rel_value? hd hd' h (by decide : "properties" ∈ keywords)
  have hitems := rel_value? hd hd' h (by decide : "items" ∈ keywords)
  rw [mapping?, mapping?, mapping?, mapping?]
  generalize node.value? "properties" = ps, node'.value? "properties" = ps',
    node.value? "items" = is, node'.value? "items" = is' at hproperties hitems ⊢
  constructor
  · cases hproperties with
    | none => exact .none
    | @some v v' hunder =>
      rcases hunder with rfl | ⟨heq, -⟩ | ⟨-, ps, ps', rfl, rfl, heach⟩
      · cases v with
        | map ps => exact .some (EachSameHeeded.refl ps).forall₂
        | _ => exact .none
      · simp at heq
      · exact .some heach.forall₂
  · cases hitems with
    | none => exact .none
    | @some v v' hunder =>
      rcases hunder with rfl | ⟨-, hv⟩ | ⟨heq, -⟩
      · cases v with
        | map es => exact .some (.refl es)
        | _ => exact .none
      · rcases rel_fields? hv with ⟨hnone, rfl⟩ | ⟨sub, sub', rfl, rfl, hsub⟩
        · simp [hnone]
        · exact .some hsub
      · simp at heq

theorem SameHeeded.isSome_properties (h : node.SameHeeded settings tables within joins node') :
    (node'.mapping? "properties").isSome = (node.mapping? "properties").isSome := by
  have hrel := (rel_mapping? hd hd' h).1
  generalize node.mapping? "properties" = ps, node'.mapping? "properties" = ps' at hrel ⊢
  cases hrel <;> rfl

theorem SameHeeded.isTable_eq (h : node.SameHeeded settings tables within joins node') :
    node'.isTable = node.isTable :=
  isTable_congr (value?_eq hd hd' h (by simp)) (value?_eq hd hd' h (by simp))
    (isSome_properties hd hd' h)

end Node

/-- Two nodes that are the same but for overrides that make no difference. No node that is visited
from them has a key twice. -/
def AlikeAt (settings : Settings) (tables : List String) (inside : Bool) (step : Option Step)
    (node node' : Fields) : Prop :=
  SameHeededAt settings tables inside step node node' ∧
    (∀ n, node.Walked n → Entries.Distinct n) ∧ ∀ n, node'.Walked n → Entries.Distinct n

variable {inside : Bool} {step : Option Step} {node node' : Fields}
  (h : node.AlikeAt settings tables inside step node')
include h

theorem AlikeAt.saysSame : node.SaysSame settings settings node' := by
  obtain ⟨hsame, hwalked, hwalked'⟩ := h
  have hd := hwalked node (.self node)
  have hd' := hwalked' node' (.self node')
  refine ⟨fun _ => SameHeeded.value?_eq hd hd' hsame, fun o ho => ?_, hsame.isSome_properties hd hd', ?_, ?_⟩
  · refine SameHeeded.override?_eq hd hd' hsame (.inr ?_)
    revert o
    decide
  · have hrel := (hsame.rel_mapping? hd hd').2
    generalize node.mapping? "items" = item, node'.mapping? "items" = item' at hrel ⊢
    cases hrel <;> rfl
  · have hrel := (hsame.rel_mapping? hd hd').2
    rw [isTable_value, isTable_value]
    have hitem : ∀ item ∈ node.mapping? "items", Entries.Distinct item := fun item hitem =>
      hwalked item ((Walked.self item).of_child (items_mem_children_iff.mpr hitem))
    have hitem' : ∀ item ∈ node'.mapping? "items", Entries.Distinct item := fun item hitem =>
      hwalked' item ((Walked.self item).of_child (items_mem_children_iff.mpr hitem))
    generalize node.mapping? "items" = item, node'.mapping? "items" = item' at hrel hitem hitem' ⊢
    cases hrel with
    | none => rfl
    | some hsub => exact hsub.isTable_eq (hitem _ rfl) (hitem' _ rfl)

/-- **Nodes that are the same but for overrides that make no difference** correspond. -/
theorem AlikeAt.corresponds :
    node.Corresponds settings settings (AlikeAt settings tables) inside step node' := by
  have hsaid := h.saysSame
  obtain ⟨hsame, hwalked, hwalked'⟩ := h
  have hd := hwalked node (.self node)
  have hd' := hwalked' node' (.self node')
  refine Corresponds.and_walked (R := SameHeededAt settings tables) ?_ hwalked hwalked'
  exact
    { isTable := hsaid.isTable_eq
      kind := hsaid.kind_eq
      identity := hsaid.identity_eq rfl
      badKey := hsame.badKey?_eq
      kept := hsame.kept
      properties := (hsame.rel_mapping? hd hd').1
      items := (hsame.rel_mapping? hd hd').2
      join := by
        rintro rfl ⟨name, rfl⟩ hkind owner
        have hjoins : node.becomesMany true (some (.property name)) = true := by
          simp [becomesMany, hkind]
        rw [SameHeededAt, hjoins] at hsame
        rw [Walk.joinOf, Walk.joinOf, SameHeeded.override?_eq hd hd' hsame (.inl rfl),
          SameHeeded.override?_eq hd hd' hsame (.inl rfl)] }

/-! ### What the rules find -/

/-- No rule tells the nodes apart, as far as errors go. -/
theorem AlikeAt.textComplaint?_eq {o : Override} (ho : o ∈ Override.textual) :
    Override.textComplaint? settings o node' = Override.textComplaint? settings o node := by
  obtain ⟨hsame, hwalked, hwalked'⟩ := h
  rcases SameHeeded.override?_eq_or (hwalked node (.self node)) (hwalked' node' (.self node')) hsame o
    with heq | ⟨hleft, hright⟩
  · rw [Override.textComplaint?, Override.textComplaint?, heq]
  · rw [Override.textComplaint?_of_unheeded ho hleft, Override.textComplaint?_of_unheeded ho hright]

theorem AlikeAt.throughComplaint?_eq :
    (settings.override? .joinThrough node').bind (Override.throughComplaint? settings tables) =
      (settings.override? .joinThrough node).bind (Override.throughComplaint? settings tables) := by
  obtain ⟨hsame, hwalked, hwalked'⟩ := h
  rcases SameHeeded.override?_eq_or (hwalked node (.self node)) (hwalked' node' (.self node')) hsame
    .joinThrough with heq | ⟨hleft, hright⟩
  · rw [heq]
  · have hnone : ∀ {w : Option Value}, (∀ v, w = some v → Override.Unheeded settings tables
        (node.becomesMany inside step) (.text (settings.key .joinThrough), v)) →
        w.bind (Override.throughComplaint? settings tables) = none := by
      intro w hw
      cases w with
      | none => rfl
      | some v => exact (hw v rfl).throughComplaint?
    rw [hnone hleft, hnone hright]

end Fields

/-- **The rules find the same errors** in schemas that are the same but for overrides that make no
difference. -/
theorem Override.errors_checkAll_eq {schema schema' : Fields}
    (h : schema.AlikeAt settings (schema.tableNames settings) false none schema') :
    (checkAll settings schema').errors = (checkAll settings schema).errors := by
  have hnodes := Fields.forall₂_nodes (fun h => h.corresponds) h
  have hnames : schema'.tableNames settings = schema.tableNames settings := by
    refine Fields.tableNames_eq (hnodes.imp ?_)
    rintro n n' ⟨-, _, _, hn⟩
    exact ⟨hn.saysSame.isTable_eq, hn.saysSame.name?_eq (by simp)⟩
  rw [← List.map_id (checkAll settings schema').errors,
    ← List.map_id (checkAll settings schema).errors]
  refine map_errors_checkAll id hnames (hnodes.imp ?_)
  rintro n n' ⟨hat, _, _, hn⟩
  refine ⟨hat, ?_, ?_⟩
  · rw [tell_valueComplaints, tell_valueComplaints, hn.saysSame.titleComplaint?_eq]
    congr 2
    exact List.filterMap_congr fun o ho => hn.textComplaint?_eq ho
  · rw [tell_joinComplaints, tell_joinComplaints, hn.throughComplaint?_eq]

end NestedTables
