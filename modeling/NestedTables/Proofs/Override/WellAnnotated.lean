import NestedTables.Proofs.Override.Accepted
import NestedTables.Proofs.Override.JoinTable

/-!
# What the rules for overrides accept

`WellAnnotated` says which overrides and titles a node may have, without a word about how they are
checked. A JSON schema is accepted exactly when all of its visited nodes are well annotated, and
what is found is told in the order of the walk, all that is about values before all that is about
joins: `isValid_iff_wellAnnotated`.

That no error is found in a node is known to be what acceptance means (`NoErrors`); the work left
is to read the conditions off the three rules that find errors.
-/

namespace NestedTables

/-- The codes of the findings of a group of rules. -/
def RuleGroup.codes : RuleGroup → List String
  | .values => ["ANNOTATION_NOT_STRING", "JOIN_TO_COLUMN_MALFORMED", "TABLE_TITLE_NOT_STRING",
      "UNKNOWN_ANNOTATION"]
  | .joins => ["JOIN_ANNOTATION_IGNORED", "JOIN_OVERRIDES_CONFLICT", "JOIN_THROUGH_MALFORMED",
      "JOIN_THROUGH_UNKNOWN_TABLE"]

/-- The group of the rules that find a complaint. -/
def Complaint.group : Complaint → RuleGroup
  | .notText _ _ | .notReference _ _ | .titleNotText _ _ | .unknownKey _ => .values
  | .joinIgnored | .joinConflict _ _ | .throughMalformed .. | .throughNotReferences _
  | .throughTwoTables _ _ | .throughUnknownTable _ => .joins

namespace Override

variable {settings : Settings} {schema node : Fields}

/-! ### Well-annotated nodes -/

/-- Whether a node has an override that counts as true. -/
def HasTruthy (settings : Settings) (o : Override) (node : Fields) : Prop :=
  ∃ v, settings.override? o node = some v ∧ v.truthy = true

/-- The overrides and the title of a node of a schema are as they should be. -/
structure WellAnnotated (settings : Settings) (schema node : Fields) : Prop where
  /-- A textual override is a text with a character that is not blank. -/
  texts : ∀ o ∈ textual, ∀ v, settings.override? o node = some v →
    ∃ s, v = .text s ∧ ∃ c ∈ s.toList, Text.isBlank c = false
  /-- An override of the join column is a reference. -/
  joinTo : ∀ v, settings.override? .joinToColumn node = some v →
    ∃ s, v = .text s ∧ ColumnRef.IsWritten s
  /-- A table that is named after its title has a text there, or nothing. -/
  title : node.isTable = true →
    ¬ (HasTruthy settings .tableName node ∧ HasTruthy settings .modelName node) →
      ∀ v, node.value? "title" = some v → v = .null ∨ ∃ s, v = .text s
  /-- An override of the join table describes one of the tables of the schema. -/
  joinThrough : ∀ v, settings.override? .joinThrough node = some v →
    IsJoinTable settings schema v

theorem allBlank_eq_false_iff {s : String} :
    Text.allBlank s = false ↔ ∃ c ∈ s.toList, Text.isBlank c = false := by
  simp [Text.allBlank]

/-- **A textual override is accepted** exactly when it is a text that is not blank, and a
reference if it is the join column. -/
theorem textComplaint?_eq_none_iff {o : Override} : textComplaint? settings o node = none ↔
    ∀ v, settings.override? o node = some v →
      ∃ s, v = .text s ∧ (∃ c ∈ s.toList, Text.isBlank c = false) ∧
        (o = .joinToColumn → ColumnRef.IsWritten s) := by
  unfold textComplaint?
  split
  · next h => simp [h]
  · next s h =>
    simp only [h, Option.some.injEq, forall_eq', Value.scalar.injEq, Scalar.text.injEq,
      exists_eq_left', ← allBlank_eq_false_iff]
    by_cases hblank : Text.allBlank s = true
    · simp [hblank]
    · rw [if_neg hblank]
      split
      · next hbad => simpa [hblank, ColumnRef.ofText?_eq_none_iff] using hbad
      · next hgood => simpa [hblank, ColumnRef.ofText?_eq_none_iff] using hgood
  · next v hne h =>
    refine iff_of_false (by simp) fun hall => ?_
    obtain ⟨s, rfl, -⟩ := hall v h
    exact hne s rfl

theorem namesBoth_iff : namesBoth settings node = true ↔
    HasTruthy settings .tableName node ∧ HasTruthy settings .modelName node := by
  simp [namesBoth, HasTruthy, Option.any_eq_true]

/-- **A title is accepted** exactly when it is a text or null, or is not asked for. -/
theorem titleComplaint?_eq_none_iff : titleComplaint? settings node = none ↔
    (node.isTable = true →
      ¬ (HasTruthy settings .tableName node ∧ HasTruthy settings .modelName node) →
        ∀ v, node.value? "title" = some v → v = .null ∨ ∃ s, v = .text s) := by
  unfold titleComplaint?
  split
  · next hasked =>
    rw [Bool.and_eq_true, Bool.not_eq_true', ← Bool.not_eq_true, namesBoth_iff] at hasked
    simp only [hasked.1, hasked.2, not_false_eq_true, forall_const]
    cases htitle : node.value? "title" with
    | none => simp [Fields.value, htitle]
    | some v =>
      simp only [Fields.value, htitle, Option.getD_some, Option.some.injEq, forall_eq']
      split
      · simp
      · simp
      · next hnull htext =>
        simp only [reduceCtorEq, false_iff, not_or, not_exists]
        exact ⟨hnull, htext⟩
  · next hasked =>
    rw [Bool.and_eq_true, Bool.not_eq_true', ← Bool.not_eq_true, namesBoth_iff] at hasked
    exact iff_of_true rfl fun htable hnames => absurd ⟨htable, hnames⟩ hasked

/-- No error is found in a node exactly when it is well annotated. -/
theorem noErrors_iff_wellAnnotated (hschema : ∀ v, settings.override? .joinThrough node = some v →
      v.isJson = true) :
    NoErrors settings (schema.tableNames settings) node ↔ WellAnnotated settings schema node := by
  constructor
  · rintro ⟨htexts, htitle, hthrough⟩
    refine ⟨fun o ho v hv => ?_, fun v hv => ?_, titleComplaint?_eq_none_iff.mp htitle,
      fun v hv => (throughComplaint?_eq_none_iff (hschema v hv)).mp (hthrough v hv)⟩
    · obtain ⟨s, hs, hblank, -⟩ := textComplaint?_eq_none_iff.mp (htexts o ho) v hv
      exact ⟨s, hs, hblank⟩
    · have hmem : Override.joinToColumn ∈ textual := by decide
      obtain ⟨s, hs, -, href⟩ := textComplaint?_eq_none_iff.mp (htexts _ hmem) v hv
      exact ⟨s, hs, href rfl⟩
  · rintro ⟨htexts, hjoinTo, htitle, hthrough⟩
    refine ⟨fun o ho => textComplaint?_eq_none_iff.mpr fun v hv => ?_,
      titleComplaint?_eq_none_iff.mpr htitle,
      fun v hv => (throughComplaint?_eq_none_iff (hschema v hv)).mpr (hthrough v hv)⟩
    obtain ⟨s, rfl, hblank⟩ := htexts o ho v hv
    refine ⟨s, rfl, hblank, ?_⟩
    rintro rfl
    obtain ⟨_, hs, href⟩ := hjoinTo _ hv
    obtain rfl : s = _ := by simpa using hs
    exact href

end Override

/-- Everything that is visited from a JSON object is a JSON object. -/
theorem Fields.Walked.isJson {root node : Fields} (h : root.Walked node)
    (hroot : root.isJson = true) : node.isJson = true := by
  induction root using Fields.walkInduction with
  | h root ih =>
    rcases walked_iff.mp h with rfl | ⟨⟨step, sub⟩, hc, hwalked⟩
    · exact hroot
    · refine ih _ hc hwalked ?_
      cases step with
      | property k =>
        obtain ⟨props, hprops, hmem⟩ := property_mem_children_iff.mp hc
        exact isJson_of_mem (isJson_of_mapping? hroot hprops) hmem
      | items => exact isJson_of_mapping? hroot (items_mem_children_iff.mp hc)

/-! ### The order of findings -/

/-- A list that is put together from one part for each member of another has its members in the
order of that list. -/
theorem exists_places_flatMap {α β : Type} (f : α → List β) (as : List α) :
    ∃ places : List Nat, places.Pairwise (· ≤ ·) ∧
      List.Forall₂ (fun i b => ∃ a, as[i]? = some a ∧ b ∈ f a) places (as.flatMap f) := by
  induction as with
  | nil => exact ⟨[], List.Pairwise.nil, List.Forall₂.nil⟩
  | cons a as ih =>
    obtain ⟨places, hordered, hplaced⟩ := ih
    refine ⟨List.replicate (f a).length 0 ++ places.map (· + 1), ?_, ?_⟩
    · rw [List.pairwise_append]
      refine ⟨List.pairwise_replicate.mpr (Or.inr (Nat.le_refl 0)), ?_, ?_⟩
      · exact List.pairwise_map.mpr (hordered.imp Nat.succ_le_succ)
      · intro i hi j _
        rw [List.eq_of_mem_replicate hi]
        exact Nat.zero_le j
    · rw [List.flatMap_cons]
      refine List.rel_append ?_ ?_
      · rw [List.forall₂_iff_get]
        refine ⟨by simp, fun i hi hi' => ⟨a, by simp, List.get_mem ..⟩⟩
      · rw [List.forall₂_map_left_iff]
        exact hplaced.imp fun i b hb => by simpa using hb

namespace Override

/-- Findings in the order of a walk: each points to a visited node, and their places in the walk do
not go down. -/
def InWalkOrder (schema : Fields) (findings : List Finding) : Prop :=
  ∃ places : List Nat, places.Pairwise (· ≤ ·) ∧
    List.Forall₂ (fun i f => ∃ n, schema.nodes[i]? = some n ∧ f.pointer = .text n.1.written)
      places findings

variable {settings : Settings} {schema node : Fields}

@[simp] theorem pointer_finding (at_ : Pointer) (c : Complaint) :
    (c.finding at_).pointer = .text at_.written := by
  simp [Complaint.finding, Finding.pointer, Fields.value?]

/-- What a rule finds node by node is found in the order of the walk. -/
theorem inWalkOrder_flatMap (complaints : Fields → List Complaint) :
    InWalkOrder schema
      (schema.nodes.flatMap fun n => (complaints n.2).map (·.finding n.1)) := by
  obtain ⟨places, hordered, hplaced⟩ :=
    exists_places_flatMap (fun n => (complaints n.2).map (·.finding n.1)) schema.nodes
  refine ⟨places, hordered, hplaced.imp fun i f => ?_⟩
  rintro ⟨n, hn, hf⟩
  obtain ⟨c, -, rfl⟩ := List.mem_map.mp hf
  exact ⟨n, hn, pointer_finding n.1 c⟩

theorem code_mem_codes (c : Complaint) : c.code ∈ c.group.codes := by
  cases c <;> simp [Complaint.code, Complaint.group, RuleGroup.codes, Finding.joinTableCode]

/-- The rules for values find complaints about values. -/
theorem group_of_mem_valueComplaints {c : Complaint} (h : c ∈ valueComplaints settings node) :
    c.group = .values := by
  rcases mem_valueComplaints_iff.mp h with (⟨o, -, ho⟩ | htitle) | ⟨e, -, he⟩
  · obtain ⟨_, -, rfl⟩ | ⟨_, rfl⟩ := textComplaint?_cases ho
    · rfl
    · rfl
  · rw [titleComplaint?_cases htitle]
    rfl
  · obtain ⟨_, -, rfl⟩ := keyComplaint?_cases he
    rfl

/-- The rules for joins find complaints about joins. -/
theorem group_of_mem_joinComplaints {tables : List String} {c : Complaint}
    (h : c ∈ joinComplaints settings tables node) : c.group = .joins := by
  rcases joinComplaints_cases h with rfl | ⟨_, _, rfl⟩ | ⟨v, -, hv⟩
  · rfl
  · rfl
  · obtain ⟨_, rfl⟩ | ⟨_, rfl⟩ | ⟨_, _, rfl⟩ | ⟨_, rfl⟩ := throughComplaint?_cases hv
    · rfl
    · rfl
    · rfl
    · rfl

/-- The findings of a rule that is in a group have the codes of this group. -/
theorem forall_code_mem {rules : RuleGroup} {complaints : Fields → List Complaint}
    (h : ∀ node, ∀ c ∈ complaints node, c.group = rules) :
    ∀ f ∈ schema.nodes.flatMap fun n => (complaints n.2).map (·.finding n.1),
      f.code ∈ rules.codes := by
  intro f hf
  obtain ⟨n, -, hf⟩ := List.mem_flatMap.mp hf
  obtain ⟨c, hc, rfl⟩ := List.mem_map.mp hf
  exact h n.2 c hc ▸ code_mem_codes c

/-! ### The rules as a whole -/

/-- **A JSON schema is accepted exactly when its visited nodes are well annotated**, and its
findings are those about values, then those about joins, both in pre-order of the nodes. -/
theorem isValid_iff_wellAnnotated (settings : Settings) (schema : Fields)
    (hjson : schema.isJson = true) :
    ((checkAll settings schema).isValid = true ↔
      ∀ node, schema.Walked node → WellAnnotated settings schema node) ∧
    (∃ values joins, (checkAll settings schema).items = values ++ joins ∧
      (∀ f ∈ values, f.code ∈ RuleGroup.values.codes) ∧
      (∀ f ∈ joins, f.code ∈ RuleGroup.joins.codes) ∧
      InWalkOrder schema values ∧ InWalkOrder schema joins) ∧
    ∀ root : Fields, root.nodes = ([], root) ::
      root.children.flatMap fun c => c.2.nodes.map fun n => (c.1.path ++ n.1, n.2) := by
  refine ⟨?_, ⟨(check settings schema .values).items, (check settings schema .joins).items, rfl,
    forall_code_mem fun _ _ => group_of_mem_valueComplaints, forall_code_mem fun _ _ =>
      group_of_mem_joinComplaints, inWalkOrder_flatMap _, inWalkOrder_flatMap _⟩,
    Fields.nodes_eq_flatMap⟩
  rw [isValid_iff_noErrors]
  refine forall_congr' fun node => imp_congr_right fun hwalked => ?_
  exact noErrors_iff_wellAnnotated fun v hv =>
    Fields.isJson_of_value? (hwalked.isJson hjson) hv

/-! ### A schema that is accepted -/

/-- Students and courses, which are joined through enrollments. -/
def coursesSchema : Fields :=
  [(.text "$id", .text "student"), (.text "properties", .object
    [("courses", .object [("items", .object [("$id", .text "course")]),
        ("x-relschema-join-through", .object
          [("from_", .text "enrollment.student"), ("to", .text "enrollment.course")])]),
      ("enrollments", .object [("items", .object [("$id", .text "e"),
        ("title", .text "enrollment")])])])]

/-- The schema of students is accepted, so its join table is well annotated. -/
theorem wellAnnotated_coursesSchema :
    coursesSchema.isJson = true ∧
      ∀ node, coursesSchema.Walked node → WellAnnotated {} coursesSchema node := by
  have hjson : coursesSchema.isJson = true := by decide
  exact ⟨hjson, (isValid_iff_wellAnnotated {} coursesSchema hjson).1.mp (by decide)⟩

end Override

end NestedTables
