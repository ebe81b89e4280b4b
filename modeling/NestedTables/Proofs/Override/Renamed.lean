import NestedTables.Proofs.Override.Findings
import NestedTables.Proofs.Override.Reordered

/-!
# Overrides with another prefix

The prefix of the override keys is a setting, so a schema can be written with another one.
`Fields.renamed p q` has the prefix `q` in the keys of visited nodes that began with `p`, each key
in its place and with its value.

Nothing else may come under the new prefix, nor may a keyword be under one of them. The first is
said of a key by `Scalar.Renames`; of such keys no two are renamed to the same one, even if one of
the prefixes begins with the other (`Scalar.eq_of_renamed_eq`). So a look-up under a key in the one
node is a look-up under the renamed key in the other (`Fields.get?_renamed`), the nodes correspond
(`Fields.Renames.corresponds`), and the rules find errors of the same codes in them
(`Override.refusal?_renamed`).
-/

namespace NestedTables

/-! ### Keys -/

namespace Scalar

/-- A key with the prefix `q` in place of the prefix `p`. -/
def renamed (p q : String) : Scalar → Scalar
  | .text key =>
    if p.toList.isPrefixOf key.toList then
      .text (q ++ String.ofList (key.toList.drop p.toList.length))
    else .text key
  | k => k

/-- Whether a key that begins with `q` begins with `p`, so that it is renamed. -/
def Renames (p q : String) (k : Scalar) : Prop :=
  ∀ key, k = .text key → q.toList <+: key.toList → p.toList <+: key.toList

instance (p q : String) : (k : Scalar) → Decidable (k.Renames p q)
  | .text key => decidable_of_iff (q.toList <+: key.toList → p.toList <+: key.toList)
      ⟨fun h _ heq => Scalar.text.inj heq ▸ h, fun h => h key rfl⟩
  | .null | .bool _ | .int _ | .real _ | .date _ | .moment _ | .bytes _ =>
    .isTrue fun _ heq => Scalar.noConfusion heq

variable {p q : String} {k : Scalar}

theorem renamed_append (p q s : String) : renamed p q (.text (p ++ s)) = .text (q ++ s) := by
  simp [renamed]

theorem renamed_eq_self (h : ∀ key, k = .text key → ¬ p.toList <+: key.toList) :
    renamed p q k = k := by
  cases k with
  | text key => rw [renamed, if_neg (by simpa using h key rfl)]
  | _ => rfl

/-- A key either has the prefix or stays as it is. -/
theorem renamed_cases (p : String) (k : Scalar) :
    (∃ s, k = .text (p ++ s)) ∨ ∀ key, k = .text key → ¬ p.toList <+: key.toList := by
  by_cases h : ∃ key, k = .text key ∧ p.toList <+: key.toList
  · obtain ⟨key, rfl, s, hs⟩ := h
    refine .inl ⟨String.ofList s, congrArg Scalar.text (String.toList_injective ?_)⟩
    simp [hs]
  · push Not at h
    exact .inr h

theorem renames_append (p q s : String) : Renames p q (.text (p ++ s)) := by
  rintro key heq -
  obtain rfl := Scalar.text.inj heq
  simp

/-- **No two keys become the same**, if no other key has the new prefix. -/
theorem eq_of_renamed_eq {j : Scalar} (hk : k.Renames p q) (hj : j.Renames p q)
    (heq : k.renamed p q = j.renamed p q) : k = j := by
  have happend : ∀ {s : String} {j : Scalar}, j.Renames p q →
      (∀ key, j = .text key → ¬ p.toList <+: key.toList) → Scalar.text (q ++ s) ≠ j := by
    rintro s _ hj hout rfl
    exact hout _ rfl (hj _ rfl (by simp))
  rcases renamed_cases p k with ⟨s, rfl⟩ | hout <;> rcases renamed_cases p j with ⟨t, rfl⟩ | hout'
  · rw [renamed_append, renamed_append] at heq
    have hlist := congrArg String.toList (Scalar.text.inj heq)
    rw [String.toList_append, String.toList_append, List.append_cancel_left_eq] at hlist
    rw [String.toList_injective hlist]
  · rw [renamed_append, renamed_eq_self hout'] at heq
    exact absurd heq (happend hj hout')
  · rw [renamed_append, renamed_eq_self hout] at heq
    exact absurd heq.symm (happend hk hout)
  · rwa [renamed_eq_self hout, renamed_eq_self hout'] at heq

end Scalar

/-! ### Nodes -/

mutual

/-- A value with the keys renamed if it is a node. -/
def Value.renamed (p q : String) : Value → Value
  | .map es => .map (Fields.renamed p q es)
  | v => v

/-- The properties of a node with the keys of those renamed that are nodes. -/
def Value.renamedProperties (p q : String) : Value → Value
  | .map ps => .map (Fields.renamedEach p q ps)
  | v => v

/-- A node with the prefix `q` in place of the prefix `p`, in its keys and in those of the nodes
below. -/
def Fields.renamed (p q : String) : List (Scalar × Value) → List (Scalar × Value)
  | [] => []
  | (k, v) :: es =>
    (k.renamed p q, if k = propertiesKey then v.renamedProperties p q
      else if k = .text "items" then v.renamed p q else v) :: Fields.renamed p q es

/-- Properties with the keys of those renamed that are nodes. -/
def Fields.renamedEach (p q : String) : List (Scalar × Value) → List (Scalar × Value)
  | [] => []
  | (name, v) :: ps => (name, v.renamed p q) :: Fields.renamedEach p q ps

end

variable {p q : String}

namespace Fields

/-- What becomes of the value under a key. -/
def renamedAt (p q : String) (k : Scalar) (v : Value) : Value :=
  if k = propertiesKey then v.renamedProperties p q
  else if k = .text "items" then v.renamed p q else v

theorem renamedAt_of_ne {k : Scalar} (hproperties : k ≠ propertiesKey) (hitems : k ≠ .text "items") :
    renamedAt p q k = id := by
  funext v
  rw [renamedAt, if_neg hproperties, if_neg hitems, id]

/-- A value stays as it is if it holds no nodes. -/
theorem eq_renamedAt_or_branches (p q : String) (k : Scalar) (v : Value) :
    v = renamedAt p q k v ∨ Branches (k, v) := by
  cases hv : v.fields? with
  | some es =>
    by_cases hk : k = propertiesKey ∨ k = .text "items"
    · exact .inr ⟨hk, by rw [hv]; rfl⟩
    · obtain ⟨hproperties, hitems⟩ := not_or.mp hk
      rw [renamedAt_of_ne hproperties hitems]
      exact .inl rfl
  | none =>
    left
    unfold renamedAt
    cases v with
    | map es => simp [Value.fields?] at hv
    | _ => simp [Value.renamed, Value.renamedProperties]

/-- **What is under a renamed key** is what was under the key. -/
theorem get?_renamed {node : Fields} {k : Scalar} (hk : k.Renames p q)
    (hnode : ∀ e ∈ node, e.1.Renames p q) :
    Entries.get? (k.renamed p q) (Fields.renamed p q node) =
      (Entries.get? k node).map (renamedAt p q k) := by
  induction node with
  | nil => rw [Fields.renamed, Entries.get?_nil, Entries.get?_nil, Option.map_none]
  | cons e es ih =>
    obtain ⟨j, v⟩ := e
    rw [List.forall_mem_cons] at hnode
    rw [Fields.renamed, Entries.get?_cons, Entries.get?_cons, ih hnode.2]
    by_cases hj : j = k
    · subst hj
      rw [if_pos rfl, if_pos rfl, Option.map_some, renamedAt]
    · rw [if_neg hj, if_neg fun heq => hj (Scalar.eq_of_renamed_eq hnode.1 hk heq)]

/-- Whether the keys of all visited nodes can be renamed. -/
def Renames (p q : String) (node : Fields) : Prop :=
  ∀ n, node.Walked n → ∀ e ∈ n, e.1.Renames p q

/-- Whether a node is another one with the prefix `q`, however the nodes are reached. -/
def IsRenamed (settings : Settings) (q : String) (_inside : Bool) (_step : Option Step)
    (node node' : Fields) : Prop :=
  node' = renamed settings.overridePrefix q node ∧ node.Renames settings.overridePrefix q

end Fields

/-- The settings with another prefix. -/
def Settings.withPrefix (settings : Settings) (q : String) : Settings :=
  { settings with overridePrefix := q }

@[simp] theorem Settings.foreignKey_withPrefix (settings : Settings) (q : String) :
    (settings.withPrefix q).foreignKey = settings.foreignKey := rfl

/-- Whether no keyword begins with the prefix. -/
def Settings.SparesKeywords (settings : Settings) : Prop :=
  ∀ word ∈ Fields.keywords, settings.owns word = false

variable {settings : Settings} {node : Fields} {inside : Bool} {step : Option Step}

theorem Settings.keeps_iff {k : Scalar} : settings.keeps k = true ↔
    ∀ key, k = .text key → ¬ settings.overridePrefix.toList <+: key.toList := by
  cases k <;> simp [keeps, owns, ← List.isPrefixOf_iff_prefix]

theorem Settings.SparesKeywords.not_prefix (h : settings.SparesKeywords) {word : String}
    (hword : word ∈ Fields.keywords) : ¬ settings.overridePrefix.toList <+: word.toList := by
  rw [← List.isPrefixOf_iff_prefix, Bool.not_eq_true]
  exact h word hword

namespace Fields

section Look

variable (hold : settings.SparesKeywords) (hnew : (settings.withPrefix q).SparesKeywords)
  (hnode : ∀ e ∈ node, e.1.Renames settings.overridePrefix q)
include hold hnew hnode

/-! ### What a renamed node says of itself -/

theorem value?_renamed {key : String} (hkey : key ∈ keywords) :
    value? key (renamed settings.overridePrefix q node) =
      (node.value? key).map (renamedAt settings.overridePrefix q (.text key)) := by
  have hself : (Scalar.text key).renamed settings.overridePrefix q = .text key :=
    Scalar.renamed_eq_self fun _ heq => Scalar.text.inj heq ▸ hold.not_prefix hkey
  have hrenames : (Scalar.text key).Renames settings.overridePrefix q := fun _ heq h =>
    absurd h (Scalar.text.inj heq ▸ hnew.not_prefix hkey)
  have hget := get?_renamed hrenames hnode
  rwa [hself] at hget

theorem value?_renamed_eq {key : String} (hkey : key ∈ [identityKey, "type", "title"]) :
    value? key (renamed settings.overridePrefix q node) = node.value? key := by
  have hword : ∀ key ∈ [identityKey, "type", "title"],
      key ∈ keywords ∧ Scalar.text key ≠ propertiesKey ∧ Scalar.text key ≠ .text "items" := by decide
  obtain ⟨hmem, hproperties, hitems⟩ := hword key hkey
  rw [value?_renamed hold hnew hnode hmem, renamedAt_of_ne hproperties hitems, Option.map_id, id]

theorem mapping?_properties_renamed :
    mapping? (renamed settings.overridePrefix q node) "properties" =
      (node.mapping? "properties").map (renamedEach settings.overridePrefix q) := by
  rw [mapping?, mapping?, value?_renamed hold hnew hnode (by decide)]
  cases node.value? "properties" with
  | none => rfl
  | some v =>
    have hat : renamedAt settings.overridePrefix q (.text "properties") v =
        v.renamedProperties settings.overridePrefix q := if_pos rfl
    rw [Option.map_some, Option.bind_some, Option.bind_some, hat]
    cases v <;> rw [Value.renamedProperties] <;> first | rfl | exact fun _ => Value.noConfusion

theorem mapping?_items_renamed :
    mapping? (renamed settings.overridePrefix q node) "items" =
      (node.mapping? "items").map (renamed settings.overridePrefix q) := by
  rw [mapping?, mapping?, value?_renamed hold hnew hnode (by decide)]
  cases node.value? "items" with
  | none => rfl
  | some v =>
    have hat : renamedAt settings.overridePrefix q (.text "items") v =
        v.renamed settings.overridePrefix q := rfl
    rw [Option.map_some, Option.bind_some, Option.bind_some, hat]
    cases v <;> rw [Value.renamed] <;> first | rfl | exact fun _ => Value.noConfusion

theorem isTable_renamed : isTable (renamed settings.overridePrefix q node) = node.isTable := by
  refine isTable_congr (value?_renamed_eq hold hnew hnode (by simp))
    (value?_renamed_eq hold hnew hnode (by simp)) ?_
  rw [mapping?_properties_renamed hold hnew hnode, Option.isSome_map]

omit hold hnew in
theorem override?_renamed (o : Override) :
    (settings.withPrefix q).override? o (renamed settings.overridePrefix q node) =
      settings.override? o node := by
  have hdash : '-' ∉ "properties".toList := by decide
  have hproperties : Scalar.text (settings.key o) ≠ propertiesKey := fun heq =>
    settings.key_ne o hdash (Scalar.text.inj heq)
  have hitems : Scalar.text (settings.key o) ≠ .text "items" := fun heq =>
    settings.key_ne o (by decide) (Scalar.text.inj heq)
  have hget := get?_renamed (Scalar.renames_append settings.overridePrefix q o.suffix) hnode
  have hat : renamedAt settings.overridePrefix q (.text (settings.overridePrefix ++ o.suffix)) = id :=
    renamedAt_of_ne hproperties hitems
  rwa [Scalar.renamed_append, hat, Option.map_id, id] at hget

omit hold hnew in
/-- What is kept of a renamed node is the same, apart from what is below. -/
theorem kept_renamed :
    List.Forall₂ (fun e e' => e.1 = e'.1 ∧ (e.2 = e'.2 ∨ Branches e))
      (node.filter fun e => settings.keeps e.1)
      ((renamed settings.overridePrefix q node).filter fun e =>
        (settings.withPrefix q).keeps e.1) := by
  induction node with
  | nil => rw [renamed]; exact .nil
  | cons e es ih =>
    obtain ⟨k, v⟩ := e
    rw [List.forall_mem_cons] at hnode
    rw [renamed, List.filter_cons, List.filter_cons]
    rcases Scalar.renamed_cases settings.overridePrefix k with ⟨s, rfl⟩ | hout
    · -- an override is not kept, under neither key
      rw [Scalar.renamed_append, if_neg (by simp [Settings.keeps, Settings.owns]),
        if_neg (by simp [Settings.keeps, Settings.owns, Settings.withPrefix])]
      exact ih hnode.2
    · have hout' : ∀ key, k = .text key → ¬ q.toList <+: key.toList := fun key hkey hq =>
        hout key hkey (hnode.1 key hkey hq)
      rw [Scalar.renamed_eq_self hout, if_pos (Settings.keeps_iff.mpr hout),
        if_pos (Settings.keeps_iff.mpr hout')]
      exact .cons ⟨rfl, eq_renamedAt_or_branches _ _ _ _⟩ (ih hnode.2)

end Look

theorem Renames.of_child {c : Step × Fields} (hc : c ∈ node.children) (h : node.Renames p q) :
    Renames p q c.2 :=
  fun n hn => h n (hn.of_child hc)

theorem forall₂_renamedEach {ps : Fields}
    (hps : ∀ e ∈ ps, ∀ sub, e.2 = .map sub → Renames settings.overridePrefix q sub) :
    List.Forall₂ (SameProperty fun name => IsRenamed settings q inside (some (.property name))) ps
      (renamedEach settings.overridePrefix q ps) := by
  induction ps with
  | nil => rw [renamedEach]; exact .nil
  | cons e ps ih =>
    obtain ⟨name, v⟩ := e
    rw [List.forall_mem_cons] at hps
    rw [renamedEach]
    refine .cons ⟨rfl, ?_⟩ (ih hps.2)
    cases v with
    | map sub => exact .inr ⟨sub, _, rfl, by rw [Value.renamed], rfl, hps.1 sub rfl⟩
    | _ => exact .inl ⟨rfl, by simp [Value.renamed]⟩

theorem badKey?_renamed (p q : String) (node : Fields) :
    Walk.badKey? (renamed p q node) = Walk.badKey? node := by
  induction node with
  | nil => rw [renamed]
  | cons e es ih =>
    obtain ⟨k, v⟩ := e
    unfold Walk.badKey? Entries.keys at ih ⊢
    rw [renamed, List.map_cons, List.map_cons, List.find?_cons, List.find?_cons, ih]
    cases k with
    | text key =>
      obtain ⟨key', hkey⟩ : ∃ key', (Scalar.text key).renamed p q = .text key' := by
        rw [Scalar.renamed]
        split <;> exact ⟨_, rfl⟩
      rw [hkey]
    | _ => rfl

section Node

variable (hold : settings.SparesKeywords)
  (hnew : (settings.withPrefix q).SparesKeywords) (h : node.Renames settings.overridePrefix q)
include hold hnew h

theorem saysSame_renamed :
    node.SaysSame settings (settings.withPrefix q) (renamed settings.overridePrefix q node) where
  value? _ := value?_renamed_eq hold hnew (h node (.self node))
  override? o _ := override?_renamed (h node (.self node)) o
  properties := by
    rw [mapping?_properties_renamed hold hnew (h node (.self node)), Option.isSome_map]
  items := by rw [mapping?_items_renamed hold hnew (h node (.self node)), Option.isSome_map]
  itemsTable := by
    rw [isTable_value, isTable_value, mapping?_items_renamed hold hnew (h node (.self node))]
    cases hitem : node.mapping? "items" with
    | none => rfl
    | some item =>
      have hwalked : node.Walked item := (Walked.self item).of_child (items_mem_children_iff.mpr hitem)
      exact isTable_renamed hold hnew (h item hwalked)

end Node

/-- **A node and the renamed one** correspond. -/
theorem IsRenamed.corresponds (hold : settings.SparesKeywords)
    (hnew : (settings.withPrefix q).SparesKeywords) {node' : Fields}
    (h : IsRenamed settings q inside step node node') :
    node.Corresponds settings (settings.withPrefix q) (IsRenamed settings q) inside step node' := by
  obtain ⟨rfl, h⟩ := h
  have hsame := saysSame_renamed hold hnew h
  have hkeys := h node (.self node)
  exact
    { isTable := hsame.isTable_eq
      kind := hsame.kind_eq
      identity := hsame.identity_eq rfl
      badKey := badKey?_renamed _ _ _
      kept := kept_renamed hkeys
      properties := by
        rw [mapping?_properties_renamed hold hnew hkeys]
        cases hps : node.mapping? "properties" with
        | none => exact .none
        | some ps =>
          refine .some (forall₂_renamedEach ?_)
          rintro ⟨name, v⟩ he sub rfl
          exact h.of_child (property_mem_children_iff.mpr ⟨ps, hps, he⟩)
      items := by
        rw [mapping?_items_renamed hold hnew hkeys]
        cases hitem : node.mapping? "items" with
        | none => exact .none
        | some item => exact .some ⟨rfl, h.of_child (items_mem_children_iff.mpr hitem)⟩
      join := fun _ _ _ owner => by
        rw [Walk.joinOf, Walk.joinOf, override?_renamed hkeys, override?_renamed hkeys] }

end Fields

/-! ### What the rules find -/

namespace Override

/-- What is told of an error: its code, and where it is. -/
def whatAndWhere (x : Finding) : String × Value :=
  (x.code, x.pointer)

/-- Errors with the same codes are told in the same way. -/
theorem tell_eq_of_codes {complaints complaints' : List Complaint} (at_ : Pointer)
    (herrors : ∀ c ∈ complaints, c.isError = true) (herrors' : ∀ c ∈ complaints', c.isError = true)
    (hcodes : complaints'.map Complaint.code = complaints.map Complaint.code) :
    tell whatAndWhere at_ complaints' = tell whatAndWhere at_ complaints := by
  have htell : ∀ cs : List Complaint, (∀ c ∈ cs, c.isError = true) →
      tell whatAndWhere at_ cs = (cs.map Complaint.code).map fun code => (code, .text at_.written) := by
    intro cs hcs
    rw [tell, List.filter_eq_self.mpr hcs, List.map_map]
    rfl
  rw [htell _ herrors, htell _ herrors', hcodes]

variable {settings settings' : Settings} {node node' : Fields}

/-- A complaint about a textual override has one code, whatever the key is called. -/
theorem code_textComplaint? {o : Override}
    (h : settings'.override? o node' = settings.override? o node) :
    (textComplaint? settings' o node').map Complaint.code =
      (textComplaint? settings o node).map Complaint.code := by
  rw [textComplaint?, textComplaint?, h]
  split
  · rfl
  · split
    · rfl
    · split <;> rfl
  · rfl

theorem code_throughComplaint? (tables : List String) (v : Value) :
    (throughComplaint? settings' tables v).map Complaint.code =
      (throughComplaint? settings tables v).map Complaint.code := by
  rw [throughComplaint?, throughComplaint?]
  split
  · rfl
  · split <;> rfl

section Node

variable (hold : settings.SparesKeywords) {q : String} (hnew : (settings.withPrefix q).SparesKeywords)
  (h : node.Renames settings.overridePrefix q) (at_ : Pointer)
include hold hnew h

theorem tell_valueComplaints_renamed :
    tell whatAndWhere at_ (valueComplaints (settings.withPrefix q)
        (Fields.renamed settings.overridePrefix q node)) =
      tell whatAndWhere at_ (valueComplaints settings node) := by
  rw [tell_valueComplaints, tell_valueComplaints]
  refine congrArg₂ _ (tell_eq_of_codes at_ ?_ ?_ ?_) ?_
  · intro c hc
    obtain ⟨o, -, ho⟩ := List.mem_filterMap.mp hc
    exact isError_of_textComplaint? ho
  · intro c hc
    obtain ⟨o, -, ho⟩ := List.mem_filterMap.mp hc
    exact isError_of_textComplaint? ho
  · rw [List.map_filterMap, List.map_filterMap]
    exact List.filterMap_congr fun o _ =>
      code_textComplaint? (Fields.override?_renamed (h node (.self node)) o)
  · rw [(Fields.saysSame_renamed hold hnew h).titleComplaint?_eq]

omit hold hnew in
theorem tell_joinComplaints_renamed (tables : List String) :
    tell whatAndWhere at_ (joinComplaints (settings.withPrefix q) tables
        (Fields.renamed settings.overridePrefix q node)) =
      tell whatAndWhere at_ (joinComplaints settings tables node) := by
  rw [tell_joinComplaints, tell_joinComplaints, Fields.override?_renamed (h node (.self node))]
  cases settings.override? .joinThrough node with
  | none => rfl
  | some v =>
    refine tell_eq_of_codes at_ (fun c hc => ?_) (fun c hc => ?_) ?_
    · exact isError_of_throughComplaint? (Option.mem_toList.mp hc)
    · exact isError_of_throughComplaint? (Option.mem_toList.mp hc)
    · rw [Option.bind_some, Option.bind_some, ← Option.toList_map, ← Option.toList_map,
        code_throughComplaint?]

end Node

/-- **The rules find errors of the same codes** in a schema and in the renamed one, at the same
nodes. -/
theorem refusal?_renamed (hold : settings.SparesKeywords) {q : String}
    (hnew : (settings.withPrefix q).SparesKeywords) {schema : Fields}
    (h : schema.Renames settings.overridePrefix q) :
    Option.Rel SchemaError.SameKind (checkAll settings schema).refusal?
      (checkAll (settings.withPrefix q)
        (Fields.renamed settings.overridePrefix q schema)).refusal? := by
  have hroot : Fields.IsRenamed settings q false none schema _ := ⟨rfl, h⟩
  have hnodes := Fields.forall₂_nodes (fun h => h.corresponds hold hnew) hroot
  refine Report.refusal?_rel (map_errors_checkAll whatAndWhere ?_ (hnodes.imp ?_))
  · refine Fields.tableNames_eq (hnodes.imp ?_)
    rintro n n' ⟨-, _, _, hn', hn⟩
    rw [hn']
    have hsame := Fields.saysSame_renamed hold hnew hn
    exact ⟨hsame.isTable_eq, hsame.name?_eq (by simp)⟩
  · rintro n n' ⟨hat, _, _, hn', hn⟩
    rw [hn']
    exact ⟨hat, tell_valueComplaints_renamed hold hnew hn _, tell_joinComplaints_renamed hn _ _⟩

end Override

end NestedTables
