import NestedTables.Proofs.Compile.Handed

/-!
# The end of a visit

When the children of a node have been visited, the walk puts together the relations of the node
and then does one of three things: it registers a table, it makes a relation of an array of
tables, or it leaves the node in its place. Here this is compared with the outline, without
looking at the tree: the results of the children are any that are handed up as some results in
the outline are (`Walk.walks_finish`).

The end of a visit can be stopped only by a name that is there twice among the relations of
the node, counting the one that the node itself becomes.
-/

namespace NestedTables.Walk

variable {η ε : Type} {setting : Setting η ε} {s s' : Stage η} {v : Visit η} {o : Visit Nat}
  {vs : Entries Step (Visit η)} {os : Entries Step (Visit Nat)}

/-! ### The relations of a node, and what comes after -/

/-- What is left to do when the relations of a node have been put together. -/
def conclude (setting : Setting η ε) (ctx : Option Context) (step : Option Step) (at_ : Pointer)
    (node : Fields) (results : Entries Step (Visit η))
    (relations : Entries Scalar (Relation η)) : Walk η ε (Visit η) :=
  if node.isTable then emit setting at_ node (keptOf setting ctx node results) relations
  else match node.kind, (results.get? .items).bind Visit.table with
    | .arrayOfTable, some target =>
      finishArray setting ctx step at_ node target (.map (keptOf setting ctx node results))
        relations
    | _, _ => return { schema := .map (keptOf setting ctx node results), relations := relations }

variable {node : Fields} {results : Entries Step (Visit η)} {ctx : Option Context}
  {step : Option Step} {at_ : Pointer} {relations : Entries Scalar (Relation η)}
  {clash : Scalar → Pointer → Prop}

/-- **The end of a visit**: the relations to the tables among the properties are merged into
those that have been handed up, and then the node is concluded. -/
theorem finish_eq (hkeyed : node.isKeyed = true)
    (hkeys : Entries.keys results = node.children.map (·.1)) :
    finish setting ctx step at_ node results relations =
      accepted (merge relations (results.filterMap (one? setting ctx)) at_) >>=
        conclude setting ctx step at_ node results := by
  unfold finish conclude keptOf
  cases hproperties : node.mapping? "properties" with
  | none =>
    rw [filterMap_one?_of_no_properties setting hproperties hkeys]
    cases results.get? .items <;> rfl
  | some properties =>
    simp only [rebuild_eq setting hkeyed hproperties hkeys]
    cases merge relations (results.filterMap (one? setting ctx)) at_ with
    | error e => rfl
    | ok named => cases results.get? .items <;> rfl

/-- **Merging** some relations into others can fail only on a name that is then there twice. -/
theorem walks_merge {incoming : Entries Scalar (Relation η)} (htext : Textual relations)
    (hincoming : Textual incoming) (hnodup : (Entries.keys relations).Nodup)
    (hclash : ∀ name, List.Duplicate name (Entries.keys (relations ++ incoming)) →
      clash name at_) :
    Walks setting [] clash s (accepted (merge relations incoming at_)) fun s' merged =>
      s' = s ∧ merged = relations ++ incoming ∧ (Entries.keys (relations ++ incoming)).Nodup := by
  by_cases hdup : (Entries.keys (relations ++ incoming)).Nodup
  · rw [merge_eq_ok htext hincoming hdup]
    exact .pure ⟨rfl, rfl, hdup⟩
  · obtain ⟨name, heq, hname⟩ := merge_eq_error at_ htext hincoming hnodup hdup
    rw [heq]
    exact .collided (List.nil_append []).symm (.nil s) (hclash name hname)

/-! ### Tables -/

theorem run_get_bind {α : Type} (f : Registry η → Walk η ε α) (r : Registry η) :
    (get >>= f).run.run r = (f r).run.run r := rfl

theorem run_emit (at_ : Pointer) {rewritten : Entries Scalar Fragment} {i : Identity}
    {named : Entries String (Relation η)} (hidentity : identity setting.settings node = .ok i)
    (hnames : relationNames relations = .ok named) (r : Registry η) {draft : Draft η}
    (hdraft : (draftOf setting i rewritten named).withColumns (r.columnsOf i.tableName)
      setting.settings.foreignKey = draft) :
    (emit setting at_ node rewritten relations).run.run r =
      match setting.binder.create r.descriptors (r.describe draft) with
      | .error reason => (.error (.binder reason), r)
      | .ok handle =>
        (.ok { schema := .table r.drafts.length
               table := some ⟨i.tableName, (ColumnRef.mk i.tableName i.idColumn).written, handle⟩ },
          r.register draft handle at_ relations.length) := by
  subst hdraft
  rw [emit, hidentity, hnames]
  simp only [described, pure_bind]
  rw [run_get_bind]
  cases setting.binder.create r.descriptors (r.describe
    ((draftOf setting i rewritten named).withColumns (r.columnsOf i.tableName)
      setting.settings.foreignKey)) <;> rfl

/-- Registering a table whose names can be read and whose relations have different names. -/
theorem walks_emit {rewritten : Entries Scalar Fragment} {d : Draft Nat}
    (hidentity : identity setting.settings node = .ok (node.names setting.settings))
    (htext : Textual relations) (hnodup : (Entries.keys relations).Nodup)
    (hdraft : draftOf setting (node.names setting.settings) rewritten (textKeys relations) =
      d.withHandles s.handles) (hlength : relations.length = d.relations.length) :
    Walks setting [.register at_ d] clash s (emit setting at_ node rewritten relations)
      fun s' v => Handed s' v
        { schema := .table s.handles.length
          table := some ⟨(node.names setting.settings).tableName, node.idPath setting.settings,
            s.handles.length⟩ } := by
  have htable : (node.names setting.settings).tableName = d.tableName :=
    congrArg Draft.tableName hdraft
  have hdrafted : (draftOf setting (node.names setting.settings) rewritten
      (textKeys relations)).withColumns
        (s.registry.columnsOf (node.names setting.settings).tableName)
        setting.settings.foreignKey = s.drafted setting.settings d := by
    rw [hdraft, htable]
    rfl
  have hrun := run_emit at_ hidentity (relationNames_eq_ok htext hnodup) s.registry hdrafted
  unfold Walks
  rw [hrun]
  cases hanswer : s.answer setting d with
  | error reason =>
    rw [Stage.answer] at hanswer
    rw [hanswer]
    exact .refused (List.nil_append _).symm (.nil s) hanswer
  | ok handle =>
    have hregister : s.registry.register (s.drafted setting.settings d) handle at_
        relations.length = (s.register setting.settings at_ d handle).registry := by
      rw [hlength]
      rfl
    have hcreate := hanswer
    rw [Stage.answer] at hcreate
    simp only [hcreate, hregister]
    refine .finished (Stage.Does.register at_ hanswer).performs ?_
    -- the place that stands for the new table is the one behind all earlier handles
    intro handles hhandles
    have hplace : handles[s.handles.length]? = some handle := by
      obtain ⟨later, rfl⟩ := hhandles
      simp
    simp [Visit.map, Target.map, Entries.mapValues, ← s.counted, hplace, Fields.idPath]

/-! ### Arrays of tables -/

theorem walks_requestFor (target : Target η) (join : Join) :
    Walks setting (joinActs target.tableName join) clash s
      (modify (requestFor setting.settings target join)) fun s' _ => s'.handles = s.handles := by
  cases join with
  | column | through => exact .finished (.nil s) rfl
  | foreignKey column =>
    refine (Walks.request target.tableName column).mono (fun _ _ h => h) ?_
    rintro _ _ - rfl
    rfl

/-- An array of tables under a property asks for the column of its join and adds its
relation. -/
theorem walks_attached {name : Scalar} {owner : Context} {target : Target η} {schema : Fragment}
    {join : Join} (hjoin : joinOf setting.settings owner node = .ok join)
    (htext : Textual relations) (hname : name.isText = true)
    (hclash : name ∈ Entries.keys relations → clash name at_) :
    Walks setting (joinActs target.tableName join) clash s
      (finishArray setting (some owner) (some (.property name)) at_ node target schema relations)
      fun s' v => s'.handles = s.handles ∧ name ∉ Entries.keys relations ∧
        v = { schema := schema
              relations := relations ++ [(name, toMany setting owner target join)]
              removed := true } := by
  unfold finishArray
  simp only [hjoin, described, pure_bind]
  rw [← List.append_nil (joinActs _ _)]
  refine Walks.bind (walks_requestFor target join) ?_
  intro s' _ _ hs'
  rw [attach_eq htext hname]
  -- the column has been asked for by now, whether the name is free or not
  by_cases hmem : name ∈ Entries.keys relations
  · rw [if_pos hmem]
    exact .collided (List.nil_append []).symm (.nil s') (hclash hmem)
  · rw [if_neg hmem]
    exact .finished (.nil s') ⟨hs', hmem, rfl⟩

theorem many?_eq_some_iff {name : Scalar} {owner : Context} {target : Target η} :
    many? ctx step node results = some (name, owner, target) ↔
      node.kind = .arrayOfTable ∧ (results.get? .items).bind Visit.table = some target ∧
        step = some (.property name) ∧ ctx = some owner := by
  unfold many?
  constructor
  · intro h
    split at h
    · next hkind htable =>
      simp only [Option.some.injEq, Prod.mk.injEq] at h
      obtain ⟨rfl, rfl, rfl⟩ := h
      exact ⟨hkind, htable, rfl, rfl⟩
    · simp at h
  · rintro ⟨hkind, htable, rfl, rfl⟩
    rw [hkind, htable]

/-- An array of tables that is under no property, or in no table, is only noted. -/
theorem finishArray_of_many? {target : Target η} (hmany : many? ctx step node results = none)
    (hkind : node.kind = .arrayOfTable)
    (htarget : (results.get? .items).bind Visit.table = some target) (schema : Fragment) :
    finishArray setting ctx step at_ node target schema relations =
      (noteAll [.notAttached at_ target.tableName] >>= fun _ =>
        pure { schema := schema, relations := relations }) := by
  unfold finishArray
  split
  · next name owner =>
    have hsome : many? (some owner) (some (.property name)) node results =
        some (name, owner, target) := many?_eq_some_iff.mpr ⟨hkind, htarget, rfl, rfl⟩
    rw [hmany] at hsome
    exact absurd hsome (by simp)
  · rfl

/-- **Concluding a node that is no table**: it hands up all its relations, with that of the array
that it is. -/
theorem walks_conclude_of_not_table (htable : node.isTable = false)
    (hsound : node.Sound setting.settings) (htext : Textual relations)
    (hnodup : (Entries.keys relations).Nodup)
    (hstep : ∀ name, step = some (.property name) → name.isText = true)
    (hclash : ∀ name, List.Duplicate name
      (Entries.keys (relations ++ manyOf setting ctx step node results)) → clash name at_) :
    Walks setting (arrayActs setting ctx step at_ node results) clash s
      (conclude setting ctx step at_ node results relations)
      fun s' v => s'.handles = s.handles ∧
        (Entries.keys (relations ++ manyOf setting ctx step node results)).Nodup ∧
        v = { schema := .map (keptOf setting ctx node results)
              relations := relations ++ manyOf setting ctx step node results
              removed := (many? ctx step node results).isSome } := by
  unfold conclude arrayActs
  rw [htable]
  simp only [Bool.false_eq_true, if_false]
  cases hmany : many? ctx step node results with
  | some m =>
    obtain ⟨name, owner, target⟩ := m
    obtain ⟨hkind, htarget, rfl, rfl⟩ := many?_eq_some_iff.mp hmany
    have hname : name.isText = true := hstep name rfl
    have hmanyOf : manyOf setting (some owner) (some (.property name)) node results =
        [(name, toMany setting owner target (node.join setting.settings owner.idPath))] := by
      rw [manyOf, hmany]
      rfl
    rw [hmanyOf] at hclash
    simp only [hkind, htarget, hmanyOf]
    have hkeys : ∀ r : Relation η, Entries.keys (relations ++ [(name, r)]) =
        Entries.keys relations ++ [name] := by
      intro r
      rw [Entries.keys_append]
      rfl
    refine (walks_attached (hsound.joinOf owner) htext hname ?_).mono (fun _ _ h => h) ?_
    · intro hmem
      refine hclash name ?_
      rw [hkeys]
      exact duplicate_append hmem (List.mem_singleton.mpr rfl)
    · rintro s' v - ⟨hhandles, hmem, rfl⟩
      refine ⟨hhandles, ?_, rfl⟩
      rw [hkeys, List.nodup_append]
      refine ⟨hnodup, by simp, ?_⟩
      rintro k hk k' hk' rfl
      exact hmem (List.mem_singleton.mp hk' ▸ hk)
  | none =>
    rw [manyOf_of_many? setting hmany, List.append_nil]
    by_cases hkind : node.kind = .arrayOfTable
    · cases htarget : (results.get? .items).bind Visit.table with
      | none =>
        simp only [hkind]
        exact .pure ⟨rfl, hnodup, rfl⟩
      | some target =>
        simp only [hkind, finishArray_of_many? hmany hkind htarget]
        refine Walks.bind (Walks.noteAll [.notAttached at_ target.tableName]) ?_
        rintro _ _ - rfl
        exact .pure ⟨rfl, hnodup, rfl⟩
    · cases hk : node.kind with
      | arrayOfTable => exact absurd hk hkind
      | _ => exact .pure ⟨rfl, hnodup, rfl⟩

/-! ### The whole end of a visit -/

theorem textKeys_eq_withHandles {handles : List η} {rs : Entries Scalar (Relation η)}
    {ps : Entries Scalar (Relation Nat)}
    (h : Entries.mapValues (Relation.map some) rs =
      Entries.mapValues (Relation.map (handles[·]?)) ps) :
    textKeys rs = Entries.mapValues (Relation.withHandles handles) (textKeys ps) := by
  induction rs generalizing ps with
  | nil =>
    cases ps with
    | nil => rfl
    | cons => simp [Entries.mapValues] at h
  | cons r rs ih =>
    cases ps with
    | nil => simp [Entries.mapValues] at h
    | cons p ps =>
      simp only [Entries.mapValues, List.map_cons, List.cons.injEq, Prod.mk.injEq] at h
      obtain ⟨⟨hname, hrelation⟩, hrest⟩ := h
      simp only [textKeys, Entries.mapValues, List.map_cons, List.cons.injEq, Prod.mk.injEq]
      refine ⟨⟨congrArg Scalar.plain hname, Relation.eq_withHandles hrelation⟩, ?_⟩
      simpa [textKeys, Entries.mapValues] using ih hrest

/-- The table that a node becomes is that of its outline, with handles for the places. -/
theorem draftOf_eq_withHandles (setting : Setting η ε) (hall : HandedAll s vs os)
    (ctx : Option Context) (node : Fields) :
    draftOf setting (node.names setting.settings) (keptOf setting ctx node vs)
        (textKeys (gathered setting ctx vs)) =
      (outlineDraft setting ctx node os).withHandles s.handles := by
  rw [textKeys_eq_withHandles (hall.gathered setting ctx List.prefix_rfl), hall.keptOf ctx node]
  rfl

theorem manyOf_of_isTable (htable : node.isTable = true) (results : Entries Step (Visit η)) :
    manyOf setting ctx step node results = [] := by
  refine manyOf_of_many? setting (many?_of_kind ?_ results)
  rw [Fields.kind_eq_table_iff.mpr htable]
  exact NodeKind.noConfusion

/-- **Concluding a table** registers it as its outline says. -/
theorem walks_conclude_of_isTable (htable : node.isTable = true)
    (hsound : node.Sound setting.settings) (hall : HandedAll s vs os)
    (htext : Textual (gathered setting ctx vs))
    (hnodup : (Entries.keys (gathered setting ctx vs)).Nodup) :
    Walks setting (lastActs setting ctx step at_ node os) clash s
      (conclude setting ctx step at_ node vs (gathered setting ctx vs))
      fun s' v => Handed s' v (handUp setting ctx step node s.handles.length os) := by
  have hdraft := draftOf_eq_withHandles setting hall ctx node
  have hlength : List.length (gathered setting ctx vs) =
      (outlineDraft setting ctx node os).relations.length := by
    have h := congrArg (fun d => List.length d.relations) hdraft
    simpa [draftOf, textKeys, Draft.withHandles, Entries.mapValues] using h
  rw [lastActs, if_pos htable, handUp, if_pos htable, conclude, if_pos htable]
  exact walks_emit (hsound.identity htable) htext hnodup hdraft hlength

theorem handed_handUp (htable : node.isTable = false) (hall : HandedAll s vs os)
    (hs : s.handles <+: s'.handles) (place : Nat) :
    Handed s' { schema := .map (keptOf setting ctx node vs)
                relations := gathered setting ctx vs ++ manyOf setting ctx step node vs
                removed := (many? ctx step node vs).isSome }
      (handUp setting ctx step node place os) := by
  intro handles hhandles
  have hvs := hall handles (hs.trans hhandles)
  have hmany := hall.manyOf setting ctx step node (hs.trans hhandles)
  have hremoved : (many? ctx step node vs).isSome = (many? ctx step node os).isSome := by
    have h₁ := many?_map ctx some vs step node
    rw [hvs, many?_map] at h₁
    simpa using (congrArg Option.isSome h₁).symm
  have happend : ∀ {θ θ' : Type} (f : θ → θ') (es fs : Entries Scalar θ),
      Entries.mapValues f (es ++ fs) = Entries.mapValues f es ++ Entries.mapValues f fs := by
    intro _ _ f es fs
    exact List.map_append
  rw [handUp, if_neg (by simp [htable])]
  simp only [Visit.map, happend, hall.gathered setting ctx (hs.trans hhandles), hmany, hremoved,
    hall.keptOf ctx node, Option.map_none]

/-- **The end of a visit follows the outline.** Only a name that is there twice can stop it. -/
theorem walks_finish (hkeyed : node.isKeyed = true) (hsound : node.Sound setting.settings)
    (hall : HandedAll s vs os) (hkeys : Entries.keys os = node.children.map (·.1))
    (htext : Textual (gathered (setting.words : Setting Nat Unit) ctx os))
    (hnodup : (Entries.keys (handedUp os)).Nodup)
    (hstep : ∀ name, step = some (.property name) → name.isText = true)
    (hclash : ∀ name, List.Duplicate name (Entries.keys
      (gathered (setting.words : Setting Nat Unit) ctx os ++
        manyOf setting.words ctx step node os)) → clash name at_) :
    Walks setting (lastActs setting ctx step at_ node os) clash s
      (finish setting ctx step at_ node vs (handedUp vs))
      fun s' v => Handed s' v (handUp setting ctx step node s.handles.length os) ∧
        (Entries.keys (gathered (setting.words : Setting Nat Unit) ctx os ++
          manyOf setting.words ctx step node os)).Nodup := by
  have hkeysG : Entries.keys (gathered setting ctx vs) =
      Entries.keys (gathered (setting.words : Setting Nat Unit) ctx os) := hall.keys_gathered ctx
  have htextG : Textual (gathered setting ctx vs) := (textual_congr hkeysG).mpr htext
  obtain ⟨htextUp, htextOne⟩ := textual_append.mp htextG
  -- what the children hand up is free of repetitions, so a repetition is due to a table among them
  have hmerge : Walks setting [] clash s
      (accepted (merge (handedUp vs) (vs.filterMap (one? setting ctx)) at_))
      fun s' relations => s' = s ∧ relations = gathered setting ctx vs ∧
        (Entries.keys (gathered setting ctx vs)).Nodup := by
    refine walks_merge htextUp htextOne (hall.keys_handedUp ▸ hnodup) fun name hname => ?_
    refine hclash name ?_
    rw [Entries.keys_append, ← hkeysG]
    exact hname.mono_sublist (List.sublist_append_left _ _)
  rw [finish_eq hkeyed (hall.keys.trans hkeys), ← List.nil_append (lastActs _ _ _ _ _ _)]
  refine Walks.bind hmerge ?_
  rintro _ _ - ⟨rfl, rfl, hdup⟩
  -- the relations have been put together; what is left is to register the node or to conclude it
  cases htable : node.isTable with
  | true =>
    rw [manyOf_of_isTable htable, List.append_nil]
    refine (walks_conclude_of_isTable htable hsound hall htextG hdup).mono (fun _ _ h => h) ?_
    exact fun _ _ _ h => ⟨h, hkeysG ▸ hdup⟩
  | false =>
    have hsame : Entries.keys (gathered setting ctx vs ++ manyOf setting ctx step node vs) =
        Entries.keys (gathered (setting.words : Setting Nat Unit) ctx os ++
          manyOf setting.words ctx step node os) := by
      rw [Entries.keys_append, Entries.keys_append, hkeysG, hall.keys_manyOf]
    have hacts : lastActs setting ctx step at_ node os =
        arrayActs setting ctx step at_ node vs := by
      rw [lastActs, if_neg (by simp [htable]), ← arrayActs_map ctx some vs,
        hall _ List.prefix_rfl, arrayActs_map]
    rw [hacts]
    refine (walks_conclude_of_not_table htable hsound htextG hdup hstep ?_).mono
      (fun _ _ h => h) ?_
    · exact fun name hname => hclash name (hsame ▸ hname)
    · rintro s' v hperforms ⟨-, hdup', rfl⟩
      exact ⟨handed_handUp htable hall hperforms.handles_prefix _, hsame ▸ hdup'⟩

end NestedTables.Walk
