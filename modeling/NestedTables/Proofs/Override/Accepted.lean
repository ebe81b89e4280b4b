import NestedTables.Proofs.Compile.Names
import NestedTables.Proofs.Override.Complaints
import NestedTables.Proofs.Schema.Settings

/-!
# Schemas that the rules accept

The rules for overrides look at the whole schema before the walk begins. This module says what
they are good for: in a schema that they accept, every visited node is `Fields.Sound`, so the
walk reads every name of a table and every join of an array (`Override.sound_of_isValid`).

The argument goes from complaints to readings. A report without errors has no complaint about
any visited node but warnings; a textual override that nobody complains about is a text with
more than blanks, so it is not empty (`Override.exists_text_of_textComplaint?_eq_none`); and a
name of a table is such an override, or a title that is a text, or the identity, so it can be
read.
-/

namespace NestedTables

/-! ### Reports without errors -/

namespace Report

theorem isValid_iff {r : Report} : r.isValid = true ↔ ∀ f ∈ r.items, f.isError = false := by
  simp [isValid, hasErrors]

end Report

namespace Complaint

/-- What makes a complaint an error. -/
def isError (c : Complaint) : Bool :=
  c.severity = .error

@[simp] theorem isError_finding (at_ : Pointer) (c : Complaint) :
    (c.finding at_).isError = c.isError := rfl

end Complaint

namespace Override

variable {settings : Settings} {schema node : Fields}

/-- A schema is accepted when all complaints about its visited nodes are warnings. -/
theorem isValid_checkAll_iff : (checkAll settings schema).isValid = true ↔
    ∀ n ∈ schema.nodes, (∀ c ∈ valueComplaints settings n.2, c.isError = false) ∧
      ∀ c ∈ joinComplaints settings (schema.tableNames settings) n.2, c.isError = false := by
  simp only [Report.isValid_iff, checkAll, Report.merge, check, List.mem_append, List.mem_flatMap,
    List.mem_map]
  constructor
  · intro h n hn
    refine ⟨fun c hc => ?_, fun c hc => ?_⟩
    · exact h _ (Or.inl ⟨n, hn, c, hc, rfl⟩)
    · exact h _ (Or.inr ⟨n, hn, c, hc, rfl⟩)
  · rintro h f (⟨n, hn, c, hc, rfl⟩ | ⟨n, hn, c, hc, rfl⟩)
    · exact (h n hn).1 c hc
    · exact (h n hn).2 c hc

/-! ### Textual overrides -/

/-- A textual override that nobody complains about is a text that is not empty. -/
theorem exists_text_of_textComplaint?_eq_none {o : Override} {v : Value}
    (h : textComplaint? settings o node = none) (hv : settings.override? o node = some v) :
    ∃ s, v = .text s ∧ s ≠ "" := by
  rw [textComplaint?, hv] at h
  split at h
  · next heq => simp at heq
  · next s heq =>
    obtain rfl : v = .text s := by simpa using heq
    refine ⟨s, rfl, ?_⟩
    rintro rfl
    simp [Text.allBlank_empty] at h
  · simp at h

/-! ### Nodes without errors -/

/-- No error is found in a node: none in its textual overrides, none in its title, none in its
join table. -/
structure NoErrors (settings : Settings) (tables : List String) (node : Fields) : Prop where
  texts : ∀ o ∈ textual, textComplaint? settings o node = none
  title : titleComplaint? settings node = none
  through : ∀ v, settings.override? .joinThrough node = some v →
    throughComplaint? settings tables v = none

theorem isError_of_textComplaint? {o : Override} {c : Complaint}
    (h : textComplaint? settings o node = some c) : c.isError = true := by
  obtain ⟨_, -, rfl⟩ | ⟨_, rfl⟩ := textComplaint?_cases h
  · rfl
  · rfl

theorem isError_of_titleComplaint? {c : Complaint}
    (h : titleComplaint? settings node = some c) : c.isError = true := by
  rw [titleComplaint?_cases h]
  rfl

theorem isError_of_throughComplaint? {tables : List String} {v : Value} {c : Complaint}
    (h : throughComplaint? settings tables v = some c) : c.isError = true := by
  obtain ⟨_, rfl⟩ | ⟨_, rfl⟩ | ⟨_, _, rfl⟩ | ⟨_, rfl⟩ := throughComplaint?_cases h
  · rfl
  · rfl
  · rfl
  · rfl

theorem forall_isError_valueComplaints_iff :
    (∀ c ∈ valueComplaints settings node, c.isError = false) ↔
      (∀ o ∈ textual, textComplaint? settings o node = none) ∧
        titleComplaint? settings node = none := by
  simp only [mem_valueComplaints_iff]
  constructor
  · refine fun h => ⟨fun o ho => ?_, ?_⟩
    · rw [Option.eq_none_iff_forall_ne_some]
      intro c hc
      exact absurd (isError_of_textComplaint? hc) (by simp [h c (Or.inl (Or.inl ⟨o, ho, hc⟩))])
    · rw [Option.eq_none_iff_forall_ne_some]
      intro c hc
      exact absurd (isError_of_titleComplaint? hc) (by simp [h c (Or.inl (Or.inr hc))])
  · rintro ⟨htexts, htitle⟩ c ((⟨o, ho, hc⟩ | hc) | ⟨e, -, hc⟩)
    · simp [htexts o ho] at hc
    · simp [htitle] at hc
    · obtain ⟨_, -, rfl⟩ := keyComplaint?_cases hc
      rfl

theorem forall_isError_joinComplaints_iff {tables : List String} :
    (∀ c ∈ joinComplaints settings tables node, c.isError = false) ↔
      ∀ v, settings.override? .joinThrough node = some v →
        throughComplaint? settings tables v = none := by
  constructor
  · intro h v hv
    rw [Option.eq_none_iff_forall_ne_some]
    intro c hc
    have hmem : c ∈ joinComplaints settings tables node := by simp [joinComplaints, hv, hc]
    exact absurd (isError_of_throughComplaint? hc) (by simp [h c hmem])
  · intro h c hc
    obtain rfl | ⟨_, _, rfl⟩ | ⟨v, hv, hcomplaint⟩ := joinComplaints_cases hc
    · rfl
    · rfl
    · simp [h v hv] at hcomplaint

/-- **A schema is accepted** exactly when no error is found in any of its visited nodes. -/
theorem isValid_iff_noErrors : (checkAll settings schema).isValid = true ↔
    ∀ node, schema.Walked node → NoErrors settings (schema.tableNames settings) node := by
  rw [isValid_checkAll_iff]
  simp only [forall_isError_valueComplaints_iff, forall_isError_joinComplaints_iff]
  constructor
  · rintro h node ⟨p, hp⟩
    exact ⟨(h (p, node) hp).1.1, (h (p, node) hp).1.2, (h (p, node) hp).2⟩
  · intro h n hn
    have := h n.2 ⟨n.1, hn⟩
    exact ⟨⟨this.texts, this.title⟩, this.through⟩

/-- **Any value is accepted** unless it is a schema with an error in one of its visited nodes. -/
theorem isValid_checkAny_iff {v : Value} : (checkAny settings v).isValid = true ↔
    ∀ schema : Fields, v = .map schema → ∀ node, schema.Walked node →
      NoErrors settings (schema.tableNames settings) node := by
  cases v with
  | map schema => simp [checkAny, isValid_iff_noErrors]
  | _ => simp [checkAny, Report.isValid, Report.hasErrors]

/-- What both groups of rules find in a value makes up all that is found in it. -/
theorem checkAny_eq_merge {v : Value} {values joins : Report}
    (hvalues : checkGroup settings v .values = .ok values)
    (hjoins : checkGroup settings v .joins = .ok joins) :
    checkAny settings v = values.merge joins := by
  cases v with
  | map schema =>
    obtain rfl := Except.ok.inj hvalues
    obtain rfl := Except.ok.inj hjoins
    rfl
  | _ => simp [checkGroup] at hvalues

/-! ### What the walk reads -/

theorem text_one_eq_ok {s : String} (h : s ≠ "") : Reading.text 1 (.text s) = .ok s := by
  have hlen : ¬ s.length < 1 := by
    have := mt String.length_eq_zero_iff.mp h
    omega
  simp [Reading.text, Reading.plainText, hlen]

theorem truthy_text {s : String} : (Value.text s).truthy = true ↔ s ≠ "" := by
  simp [Value.truthy, Scalar.truthy]

variable {tables : List String}

/-- A table has an identity. -/
theorem exists_identity (h : node.isTable = true) :
    ∃ id, node.value? identityKey = some (.text id) ∧ id ≠ "" := by
  simp only [Fields.isTable, Bool.and_eq_true] at h
  have hid := h.1
  split at hid
  · next id heq => exact ⟨id, heq, by simpa using hid⟩
  · simp at hid

/-- The title of a table is null or a text unless both names are overridden. -/
theorem title_of_noErrors (hnode : NoErrors settings tables node) (htable : node.isTable = true)
    (hboth : namesBoth settings node = false) :
    node.value "title" = .null ∨ ∃ t, node.value "title" = .text t := by
  have htitle := hnode.title
  rw [titleComplaint?, htable, hboth] at htitle
  simp only [Bool.not_false, Bool.and_self, if_true] at htitle
  split at htitle
  · next heq => exact Or.inl heq
  · next t heq => exact Or.inr ⟨t, heq⟩
  · simp at htitle

/-- **A table has a name.** An override of the name is a text that is not empty; without one the
title is a text or null; and else there is the identity. -/
theorem exists_name (hnode : NoErrors settings tables node) (htable : node.isTable = true)
    {o : Override} (ho : o = .tableName ∨ o = .modelName) :
    ∃ s, node.name? settings o = some (.text s) ∧ s ≠ "" := by
  have hmem : o ∈ textual := by rcases ho with rfl | rfl <;> decide
  cases hover : settings.override? o node with
  | some v =>
    obtain ⟨s, rfl, hs⟩ := exists_text_of_textComplaint?_eq_none (hnode.texts o hmem) hover
    exact ⟨s, by simp [Fields.name?, hover, Fields.firstTruthy, truthy_text, hs], hs⟩
  | none =>
    have hboth : namesBoth settings node = false := by
      rcases ho with rfl | rfl <;> simp [namesBoth, hover]
    obtain ⟨id, hid, hne⟩ := exists_identity htable
    have hname : node.name? settings o =
        (Fields.firstTruthy [node.value? "title"]).or (some (.text id)) := by
      simp [Fields.name?, hover, Fields.firstTruthy, hid]
    rw [hname]
    cases htitle : node.value? "title" with
    | none => exact ⟨id, by simp [Fields.firstTruthy], hne⟩
    | some v =>
      have hv : node.value "title" = v := by simp [Fields.value, htitle]
      -- a title that is null or empty does not count, and the identity takes its place
      rcases title_of_noErrors hnode htable hboth with hnull | ⟨t, ht⟩
      · obtain rfl := hv.symm.trans hnull
        exact ⟨id, by simp [Fields.firstTruthy, Value.truthy, Scalar.truthy], hne⟩
      · obtain rfl := hv.symm.trans ht
        by_cases hempty : t = ""
        · exact ⟨id, by simp [Fields.firstTruthy, truthy_text, hempty], hne⟩
        · exact ⟨t, by simp [Fields.firstTruthy, truthy_text, hempty], hempty⟩

/-- **A table has an identity column**, since the settings have one. -/
theorem exists_idColumn (hset : settings.IsValid) (hnode : NoErrors settings tables node) :
    ∃ s, node.idColumn settings = .text s ∧ s ≠ "" := by
  cases hover : settings.override? .idColumn node with
  | some v =>
    have hmem : Override.idColumn ∈ textual := by decide
    obtain ⟨s, rfl, hs⟩ := exists_text_of_textComplaint?_eq_none (hnode.texts _ hmem) hover
    refine ⟨s, ?_, hs⟩
    simp [Fields.idColumn, hover, Fields.firstTruthy, truthy_text, hs]
  | none =>
    exact ⟨settings.idColumn, by simp [Fields.idColumn, hover, Fields.firstTruthy],
      hset.idColumn_ne⟩

/-- The names of a table can be read. -/
theorem identity_eq_ok (hset : settings.IsValid) (hnode : NoErrors settings tables node)
    (htable : node.isTable = true) : Walk.identity settings node = .ok (node.names settings) := by
  obtain ⟨model, hmodel, hmodelne⟩ := exists_name hnode htable (Or.inr rfl)
  obtain ⟨table, htable', htablene⟩ := exists_name hnode htable (Or.inl rfl)
  obtain ⟨column, hcolumn, hcolumnne⟩ := exists_idColumn hset hnode
  simp [Walk.identity, Fields.names, Fields.modelName?, Fields.tableName?, hmodel, htable',
    hcolumn, text_one_eq_ok, hmodelne, htablene, hcolumnne, Reading.under, Reading.both,
    Value.text?, Except.map]

/-- A join table that nobody complains about can be read. -/
theorem through_of_noErrors (hnode : NoErrors settings tables node) {v : Value}
    (hv : settings.override? .joinThrough node = some v) : ∃ t, Through.ofValue v = .ok t := by
  have hthrough := hnode.through v hv
  unfold throughComplaint? at hthrough
  split at hthrough
  · simp at hthrough
  · next t heq => exact ⟨t, heq⟩

/-- The join of an array can be read. -/
theorem joinOf_eq_ok (hnode : NoErrors settings tables node) (ctx : Context) :
    Walk.joinOf settings ctx node = .ok (node.join settings ctx.idPath) := by
  -- null would be read as no join table at all, but the rules do not let it pass
  have hthrough : ∀ v, settings.override? .joinThrough node = some v →
      v ≠ .null ∧ ∃ t, Through.ofValue v = .ok t := by
    intro v hv
    obtain ⟨t, ht⟩ := through_of_noErrors hnode hv
    refine ⟨?_, t, ht⟩
    rintro rfl
    simp [Through.ofValue, Reading.record, Reading.flawed] at ht
  cases hto : settings.override? .joinToColumn node with
  | some v =>
    have hmem : Override.joinToColumn ∈ textual := by decide
    obtain ⟨s, rfl, hs⟩ := exists_text_of_textComplaint?_eq_none (hnode.texts _ hmem) hto
    have hfilter : (some (Value.text s)).filter Value.truthy = some (.text s) := by
      simp [Option.filter, truthy_text, hs]
    simp [Walk.joinOf, Fields.join, hto, hfilter, Value.text?, text_one_eq_ok hs, Reading.under,
      Except.map]
  | none =>
    cases hth : settings.override? .joinThrough node with
    | none => simp [Walk.joinOf, Fields.join, hto, hth]
    | some v =>
      obtain ⟨hne, t, ht⟩ := hthrough v hth
      simp [Walk.joinOf, Fields.join, hto, hth, ht, Except.map, Except.toOption]

/-- **An array is joined by a foreign key** exactly when it does not say how it is joined. -/
theorem join_eq_foreignKey_iff (hnode : NoErrors settings tables node) {owner column : String} :
    node.join settings owner = .foreignKey column ↔
      settings.override? .joinToColumn node = none ∧
        settings.override? .joinThrough node = none ∧ column = ColumnRef.flatten owner := by
  cases hto : settings.override? .joinToColumn node with
  | some v =>
    have hmem : Override.joinToColumn ∈ textual := by decide
    obtain ⟨s, rfl, -⟩ := exists_text_of_textComplaint?_eq_none (hnode.texts _ hmem) hto
    simp [Fields.join, hto, Value.text?]
  | none =>
    cases hth : settings.override? .joinThrough node with
    | none => simp [Fields.join, hto, hth, eq_comm]
    | some v =>
      obtain ⟨t, ht⟩ := through_of_noErrors hnode hth
      simp [Fields.join, hto, hth, ht, Except.toOption]

/-- **In a schema that the rules accept every visited node is sound.** -/
theorem sound_of_isValid (hset : settings.IsValid)
    (h : (checkAll settings schema).isValid = true) (hnode : schema.Walked node) :
    node.Sound settings where
  identity := identity_eq_ok hset (isValid_iff_noErrors.mp h node hnode)
  joinOf := joinOf_eq_ok (isValid_iff_noErrors.mp h node hnode)

end Override

end NestedTables
