import NestedTables.Proofs.Compile.Compilation
import NestedTables.Proofs.Compile.Descriptors
import NestedTables.Proofs.Compile.Handover
import NestedTables.Proofs.Compile.OwnColumns
import NestedTables.Proofs.Schema.Way

/-!
# The targets of relations

A relation holds the handle of its target. In the outline of a walk the place of the target stands
for the handle, and here it is shown that it is the right place: the relation of a site leads to the
table at the end of the path of the site (`Walk.leadsFrom_gathered`), which has a place before that
of the table with the relation (`exists_place`). The handles come to the tables through two
channels: a property that is a table hands its own place up, and an array of tables the place of its
items.

At a stage of a run the places have been replaced by the handles that were there when the table was
registered (`Stage.Targeted`), and every handle is an answer of the binder (`Stage.Answered`).
-/

namespace NestedTables

variable {η ε : Type}

/-! ### Places in the outline -/

namespace Tree

/-- A table has the place behind those below it. -/
theorem self_mem_zipIdx {node : Fields} (htable : node.isTable = true) (at_ : Pointer)
    (start : Nat) : ((at_, ofFields node), start + countBelow node.subtrees) ∈
      (tablesFrom at_ (ofFields node)).zipIdx start := by
  rw [tablesFrom_ofFields, if_pos htable, List.zipIdx_append, length_tablesBelow]
  exact List.mem_append_right _ (List.mem_singleton_self _)

/-- The tables below a node are among those at and below it. -/
theorem zipIdx_tablesBelow_subset_tablesFrom (node : Fields) (at_ : Pointer) (start : Nat) :
    (tablesBelow at_ node.subtrees).zipIdx start ⊆
      (tablesFrom at_ (ofFields node)).zipIdx start := by
  rw [tablesFrom_ofFields, List.zipIdx_append]
  exact List.subset_append_left _ _

variable {node sub : Fields} {way : List Step} {s : Site}

/-- The sites of the region of a child that is no table are sites of the region of its node. -/
theorem mem_sitesOf_of_child {c : Step × Fields} (hc : c ∈ node.children)
    (htable : c.2.isTable = false)
    (hs : s ∈ sitesOf (regionFrom (way ++ [c.1]) (ofFields c.2))) :
    s ∈ sitesOf (regionFrom way (ofFields node)) := by
  obtain ⟨n, hn, hsite⟩ := List.mem_flatMap.mp hs
  refine List.mem_flatMap.mpr ⟨n, ?_, hsite⟩
  rw [regionFrom_ofFields]
  exact List.mem_cons_of_mem _ (mem_regionBelow_iff.mpr
    ⟨(c.1, ofFields c.2), List.mem_map.mpr ⟨c, hc, rfl⟩, htable, hn⟩)

/-- A property that is a table or an array of tables is a site. -/
theorem mem_sitesOf_of_property {name : String}
    (hc : (.property (.text name), sub) ∈ node.children)
    (hkind : sub.kind = .table ∨ sub.kind = .arrayOfTable) :
    ⟨way, name, ofFields sub⟩ ∈ sitesOf (regionFrom way (ofFields node)) := by
  rw [ofFields_eq_node, sitesOf_regionFrom]
  refine List.mem_append_left _ (List.mem_filterMap.mpr
    ⟨(.property (.text name), ofFields sub), List.mem_map.mpr ⟨_, hc, rfl⟩, ?_⟩)
  exact Walk.of?_property name hkind

end Tree

namespace Walk

variable (setting : Setting η ε)

/-- The place that the items of an array of tables hand up is theirs. -/
theorem exists_items_place {node : Fields} (hkind : node.kind = .arrayOfTable)
    (ctx : Option Context) (start : Nat) :
    ∃ items target, node.mapping? "items" = some items ∧
      ((outlineAll setting ctx start node.subtrees).get? .items).bind Visit.table = some target ∧
      ∀ at_ : Pointer, ((at_ ++ Step.items.path, Tree.ofFields items), target.handle) ∈
        (Tree.tablesBelow at_ node.subtrees).zipIdx start := by
  obtain ⟨items, place, hitems, htable, htarget⟩ := exists_items_target setting hkind ctx start
  refine ⟨items, _, hitems, htarget, fun at_ => ?_⟩
  obtain ⟨v, hv, hvTable⟩ := Option.bind_eq_some_iff.mp htarget
  obtain ⟨⟨step, sub⟩, hc, start', heq, hplaced⟩ :=
    mem_outlineAll setting (Entries.mem_of_get?_eq_some hv)
  obtain ⟨rfl, rfl⟩ := Prod.mk.inj heq
  obtain rfl := Option.some.inj (hitems.symm.trans (Fields.items_mem_children_iff.mp hc))
  rw [outline_of_isTable setting htable, Option.some.injEq, Target.mk.injEq] at hvTable
  obtain ⟨-, -, rfl⟩ := hvTable
  exact hplaced at_ (Tree.self_mem_zipIdx htable _ start')

/-- Whether a relation is that of one of some sites and leads to the place of the table at the end
of its path; `base` is the pointer of the table with the sites. -/
def LeadsFrom (sites : List Site) (base : Pointer) (placed : List ((Pointer × Tree) × Nat))
    (e : Scalar × Relation Nat) : Prop :=
  ∃ s ∈ sites, e.1 = .text s.name ∧ ∃ place, e.2.target = some place ∧
    ((base ++ Pointer.ofWay s.path, Tree.ofFields s.target), place) ∈ placed

theorem LeadsFrom.mono {sites sites' : List Site} {base : Pointer}
    {placed placed' : List ((Pointer × Tree) × Nat)} {e : Scalar × Relation Nat}
    (h : LeadsFrom sites base placed e) (hsites : ∀ s ∈ sites, s ∈ sites')
    (hplaced : placed ⊆ placed') : LeadsFrom sites' base placed' e := by
  obtain ⟨s, hs, hname, place, htarget, hplace⟩ := h
  exact ⟨s, hsites s hs, hname, place, htarget, hplaced hplace⟩

variable {node sub : Fields} {base : Pointer} {way : List Step} {owner : Context} {start : Nat}
  {e : Scalar × Relation Nat}

/-- The relation to a table under a property leads to that table. -/
theorem leadsFrom_one {step : Step} (hc : (step, sub) ∈ node.children)
    (hstep : ∀ name, step = .property name → name.isText = true)
    (he : one? (setting.words : Setting Nat Unit) (some owner)
      (step, outline setting (some owner) (some step) start (Tree.ofFields sub)) = some e) :
    LeadsFrom (Tree.sitesOf (Tree.regionFrom way (Tree.ofFields node))) base
      ((Tree.tablesFrom (base ++ Pointer.ofWay way ++ step.path) (Tree.ofFields sub)).zipIdx start)
      e := by
  have hsome := outline_table_isSome setting sub (some owner) (some step) start
  unfold one? at he
  split at he
  · next name target _ heq _ htarget hctx =>
    obtain rfl : step = .property name := heq
    obtain ⟨name, rfl⟩ := Scalar.isText_iff.mp (hstep name rfl)
    obtain rfl := Option.some.inj he
    rw [htarget] at hsome
    have htable : sub.isTable = true := hsome.symm
    rw [outline_of_isTable setting htable, Option.some.injEq] at htarget
    refine ⟨⟨way, name, Tree.ofFields sub⟩,
      Tree.mem_sitesOf_of_property hc (Or.inl (Fields.kind_eq_table_iff.mpr htable)), rfl,
      start + Tree.countBelow sub.subtrees, by rw [← htarget]; rfl, ?_⟩
    rw [Site.path_of_isTable (s := ⟨way, name, Tree.ofFields sub⟩) htable, Pointer.ofWay_append,
      Pointer.ofWay_singleton, ← List.append_assoc,
      Site.target_of_isTable (s := ⟨way, name, Tree.ofFields sub⟩) htable]
    exact Tree.self_mem_zipIdx htable _ start
  · simp at he

/-- The relation of an array of tables under a property leads to its items. -/
theorem leadsFrom_many {step : Step} {ctx : Option Context} (hc : (step, sub) ∈ node.children)
    (hstep : ∀ name, step = .property name → name.isText = true)
    (he : e ∈ manyOf (setting.words : Setting Nat Unit) ctx (some step) sub
      (outlineAll setting ctx start sub.subtrees)) :
    LeadsFrom (Tree.sitesOf (Tree.regionFrom way (Tree.ofFields node))) base
      ((Tree.tablesBelow (base ++ Pointer.ofWay way ++ step.path) sub.subtrees).zipIdx start)
      e := by
  obtain ⟨m, hm, rfl⟩ := List.mem_map.mp he
  rw [Option.mem_toList] at hm
  unfold many? at hm
  split at hm
  · next target name owner hkind hname htarget =>
    obtain rfl := Option.some.inj hm
    obtain rfl : step = .property name := Option.some.inj hname
    obtain ⟨name, rfl⟩ := Scalar.isText_iff.mp (hstep name rfl)
    obtain ⟨items, target', hitems, htarget', hplaced⟩ := exists_items_place setting hkind _ start
    obtain rfl := Option.some.inj (htarget.symm.trans htarget')
    have htable : sub.isTable = false := (Fields.exists_items_of_kind hkind).1
    refine ⟨⟨way, name, Tree.ofFields sub⟩, Tree.mem_sitesOf_of_property hc (Or.inr hkind), rfl,
      target.handle, rfl, ?_⟩
    rw [Site.path_of_not_isTable (s := ⟨way, name, Tree.ofFields sub⟩) htable,
      Pointer.ofWay_append, Pointer.ofWay_append, Pointer.ofWay_singleton, Pointer.ofWay_singleton,
      ← List.append_assoc, ← List.append_assoc, Site.target, Tree.fields_ofFields, htable, hitems]
    exact hplaced _
  · simp at hm

/-- **The relations gathered at a node lead to the tables of its sites.** What a child hands up
comes from the child itself, if that is an array, or from below it. -/
theorem leadsFrom_gathered (hkeyed : node.isKeyed = true)
    (he : e ∈ gathered (setting.words : Setting Nat Unit) (some owner)
      (outlineAll setting (some owner) start node.subtrees)) :
    LeadsFrom (Tree.sitesOf (Tree.regionFrom way (Tree.ofFields node))) base
      ((Tree.tablesBelow (base ++ Pointer.ofWay way) node.subtrees).zipIdx start) e := by
  induction node using Fields.walkInduction generalizing owner start way e with
  | h node ih =>
    rcases List.mem_append.mp he with he | he
    · obtain ⟨r, hr, he⟩ := List.mem_flatMap.mp he
      obtain ⟨⟨step, sub⟩, hc, start', rfl, hplaced⟩ := mem_outlineAll setting hr
      obtain ⟨hsubKeyed, hstep⟩ := Fields.keyed_of_mem_children hkeyed hc
      rw [outline_table_isSome] at he
      cases htable : sub.isTable with
      | true => simp [htable] at he
      | false =>
        have hctx : contextIn setting.settings (some owner) (some step) sub =
            some (owner.child step.key.plain) := by
          simp [contextIn, htable]
        have hat : base ++ Pointer.ofWay way ++ step.path =
            base ++ Pointer.ofWay (way ++ [step]) := by simp
        have hbelow := List.Subset.trans
          (Tree.zipIdx_tablesBelow_subset_tablesFrom sub _ start') (hplaced (base ++ .ofWay way))
        rw [htable, if_neg (by simp), outline_ofFields, handUp, if_neg (by simp [htable]), hctx]
          at he
        rcases List.mem_append.mp he with he | he
        · rw [hat] at hbelow
          exact (ih (step, sub) hc hsubKeyed he).mono
            (fun s hs => Tree.mem_sitesOf_of_child hc htable hs) hbelow
        · exact (leadsFrom_many setting hc hstep he).mono (fun _ hs => hs) hbelow
    · obtain ⟨r, hr, he⟩ := List.mem_filterMap.mp he
      obtain ⟨⟨step, sub⟩, hc, start', rfl, hplaced⟩ := mem_outlineAll setting hr
      obtain ⟨-, hstep⟩ := Fields.keyed_of_mem_children hkeyed hc
      exact (leadsFrom_one setting hc hstep he).mono (fun _ hs => hs) (hplaced _)

/-- Whether the relations that a table is registered with are those of its sites and lead to the
places of their tables, which are inside the table. -/
def LeadsToPlaces (t : (Pointer × Tree) × Nat) (r : Pointer × Draft Nat) : Prop :=
  ∃ start, start + Tree.countBelow t.1.2.children = t.2 ∧
    ∀ e ∈ r.2.relations, ∃ s ∈ t.1.2.sites, s.name = e.1 ∧ ∃ place, e.2.target = some place ∧
      ((t.1.1 ++ Pointer.ofWay s.path, Tree.ofFields s.target), place) ∈
        (Tree.tablesBelow t.1.1 t.1.2.children).zipIdx start

theorem leadsToPlaces_outlineDraft (hkeyed : node.isKeyed = true) (at_ : Pointer) (start : Nat) :
    let ctx := some ((Tree.ofFields node).context setting.settings)
    LeadsToPlaces ((at_, Tree.ofFields node), start + Tree.countBelow node.subtrees)
      (at_, outlineDraft setting ctx node (outlineAll setting ctx start node.subtrees)) := by
  refine ⟨start, by rw [Tree.ofFields_eq_node]; rfl, fun e he => ?_⟩
  obtain ⟨⟨k, r⟩, hgathered, rfl⟩ := List.mem_map.mp he
  have hleads : LeadsFrom (Tree.sitesOf (Tree.regionFrom [] (Tree.ofFields node))) at_
      ((Tree.tablesBelow (at_ ++ Pointer.ofWay []) node.subtrees).zipIdx start) (k, r) :=
    leadsFrom_gathered setting hkeyed hgathered
  obtain ⟨s, hs, rfl, place, htarget, hplace⟩ := hleads
  rw [show Pointer.ofWay [] = [] from rfl, List.append_nil] at hplace
  refine ⟨s, hs, rfl, place, htarget, ?_⟩
  rw [Tree.ofFields_eq_node node]
  exact hplace

end Walk

/-- **The relations that are registered lead to tables that have been registered before**: the
relation of a site of a table to the table at the end of its path. -/
theorem exists_place {settings : Settings} {schema : Fields} (binder : Binder η ε)
    (hkeyed : schema.isKeyed = true) {i : Nat} {r : Pointer × Draft Nat}
    (hr : (Act.registered (compileActs binder settings schema))[i]? = some r) :
    ∃ t, (Tree.ofFields schema).tables[i]? = some t ∧
      ∀ e ∈ r.2.relations, ∃ s ∈ t.2.sites, s.name = e.1 ∧ ∃ place, e.2.target = some place ∧
        place < i ∧ (Tree.ofFields schema).tables[place]? =
          some (t.1 ++ Pointer.ofWay s.path, Tree.ofFields s.target) := by
  have hleads := Walk.forall₂_registered_acts (R := Walk.LeadsToPlaces)
    (fun _ at_ start hkeyed _ => Walk.leadsToPlaces_outlineDraft
      (⟨settings, binder⟩ : Walk.Setting η ε) hkeyed at_ start) hkeyed none none [] 0
  obtain ⟨⟨t, j⟩, ht, start, hstart, hrelations⟩ := exists_getElem?_of_forall₂ hleads hr
  rw [List.getElem?_zipIdx, Nat.zero_add, Option.map_eq_some_iff] at ht
  obtain ⟨t', ht, heq⟩ := ht
  obtain ⟨rfl, rfl⟩ := Prod.mk.inj heq
  refine ⟨t', ht, fun e he => ?_⟩
  obtain ⟨s, hs, hname, place, htarget, hplace⟩ := hrelations e he
  have hlt := (List.mem_zipIdx hplace).2.1
  rw [Tree.length_tablesBelow] at hlt
  have hmem : (t', i) ∈ (Tree.ofFields schema).tables.zipIdx := List.mem_zipIdx_iff_getElem?.mpr ht
  have hplace' := Tree.zipIdx_tablesBelow_subset [] _ hmem hstart hplace
  exact ⟨s, hs, hname, place, htarget, by omega, List.mem_zipIdx_iff_getElem?.mp hplace'⟩

/-! ### Handles at a stage -/

namespace Stage

variable {setting : Walk.Setting η ε} {s s' : Stage η} {done acts : List Act} {act : Act}

/-- Whether the relations of a registered table are those that it was registered with, with the
handles that were there by then. -/
def HasTargets (handles : List η) (r : (Pointer × Draft Nat) × Nat) (built : Draft η) : Prop :=
  r.2 ≤ handles.length ∧
    built.relations = r.1.2.relations.mapValues (Relation.withHandles (handles.take r.2))

theorem HasTargets.mono {handles handles' : List η} {r : (Pointer × Draft Nat) × Nat}
    {built built' : Draft η} (h : HasTargets handles r built) (hhandles : handles <+: handles')
    (hbuilt : built'.relations = built.relations) : HasTargets handles' r built' := by
  obtain ⟨hle, hrelations⟩ := h
  obtain ⟨more, rfl⟩ := hhandles
  refine ⟨by rw [List.length_append]; omega, ?_⟩
  rw [hbuilt, hrelations, List.take_append_of_le_length hle]

/-- The registered tables have the handles of their targets. -/
def Targeted (done : List Act) (s : Stage η) : Prop :=
  List.Forall₂ (HasTargets s.handles) (Act.registered done).zipIdx s.registry.drafts

/-- **Every act preserves it.** -/
theorem Targeted.step (h : Targeted done s) (hdoes : s.Does setting act s') :
    Targeted (done ++ [act]) s' := by
  unfold Targeted at h ⊢
  cases hdoes with
  | note events =>
    rw [Act.registered_append, Act.registered_note, Act.registered_nil, List.append_nil]
    exact h
  | @register at_ d handle hanswer =>
    have hlength : (Act.registered done).length = s.handles.length := by
      rw [s.counted, ← h.length_eq, List.length_zipIdx]
    rw [Act.registered_append, Act.registered_register, Act.registered_nil, List.zipIdx_append]
    refine List.rel_append (h.imp fun r b hb => hb.mono (List.prefix_append _ _) rfl)
      (.cons ⟨?_, ?_⟩ .nil)
    · simp [hlength]
    · rw [Nat.zero_add, hlength, handles_register, List.take_left, drafted,
        Draft.withColumns_relations]
      rfl
  | request table column =>
    rw [Act.registered_append, Act.registered_request, Act.registered_nil, List.append_nil]
    refine List.forall₂_map_right_iff.mpr (h.imp fun r b hb => hb.mono List.prefix_rfl ?_)
    split <;> rfl

/-- **What holds at the stages of a run.** -/
theorem Performs.targeted (h : s.Performs setting acts s') (hs : Targeted done s) :
    Targeted (done ++ acts) s' := by
  induction h generalizing done with
  | nil => rwa [List.append_nil]
  | cons hdoes _ ih =>
    rw [List.append_cons]
    exact ih (hs.step hdoes)

/-- Every handle is an answer of the binder: that to the table of its place, when those before it
had been registered. -/
def Answered (binder : Binder η ε) (s : Stage η) : Prop :=
  ∀ i handle, s.handles[i]? = some handle → ∃ before d, binder.create before d = .ok handle ∧
    before.map Descriptor.identity = s.registry.ledger.identities.take i ∧
    s.registry.ledger.identities[i]? = some d.identity

theorem Answered.step (h : Answered setting.binder s) (hdoes : s.Does setting act s') :
    Answered setting.binder s' := by
  cases hdoes with
  | note events => exact h
  | request table column =>
    intro i handle hhandle
    have hidentities : (s.request setting.settings table column).registry.ledger =
        s.registry.ledger := Registry.ledger_request _ _ _ _
    rw [hidentities]
    exact h i handle hhandle
  | @register at_ d handle hanswer =>
    intro i handle' hhandle
    have hidentities : (s.register setting.settings at_ d handle).registry.ledger.identities =
        s.registry.ledger.identities ++ [(s.drafted setting.settings d).identity] :=
      congrArg Ledger.identities (Registry.ledger_register _ _ _ _ _)
    have hlength : s.registry.ledger.identities.length = s.handles.length := by
      rw [s.counted, Registry.ledger, List.length_map]
    rw [hidentities]
    rw [handles_register] at hhandle
    -- an older handle, or the one that has just been given
    rcases Nat.lt_or_ge i s.handles.length with hi | hi
    · rw [List.getElem?_append_left hi] at hhandle
      obtain ⟨before, d', hcreate, hbefore, hd'⟩ := h i handle' hhandle
      refine ⟨before, d', hcreate, ?_, ?_⟩
      · rw [hbefore, List.take_append_of_le_length (by omega)]
      · rw [List.getElem?_append_left (by omega), hd']
    · obtain rfl : i = s.handles.length := by
        have hlt := (List.getElem?_eq_some_iff.mp hhandle).1
        rw [List.length_append, List.length_singleton] at hlt
        omega
      rw [List.getElem?_append_right (Nat.le_refl _), Nat.sub_self] at hhandle
      obtain rfl := Option.some.inj hhandle
      refine ⟨_, _, hanswer, ?_, ?_⟩
      · rw [Registry.map_identity_descriptors, List.take_left' hlength]
      · rw [List.getElem?_append_right (by omega), hlength, Nat.sub_self]
        rfl

theorem Performs.answered (h : s.Performs setting acts s') (hs : Answered setting.binder s) :
    Answered setting.binder s' := by
  induction h with
  | nil => exact hs
  | cons hdoes _ ih => exact ih (hs.step hdoes)

end Stage

/-- Whether these may be the handles of some tables, one for each: each is an answer of the binder,
to a table of the name at its place when those before it had been registered. -/
structure Binder.Gives (binder : Binder η ε) (tables : List (Descriptor η)) (handles : List η) :
    Prop where
  length_eq : handles.length = tables.length
  answered : ∀ i handle, handles[i]? = some handle →
    ∃ before d, binder.create before d = .ok handle ∧
      before.map Descriptor.identity = (tables.take i).map Descriptor.identity ∧
      tables[i]?.map Descriptor.identity = some d.identity

/-- **The handles of a run** are those that the binder gives for the tables that are registered. -/
theorem Stage.Performs.gives {setting : Walk.Setting η ε} {log : List Event} {acts : List Act}
    {s : Stage η} (h : (Stage.start log).Performs setting acts s) :
    setting.binder.Gives s.registry.descriptors s.handles := by
  have hstart : (Stage.start log).Answered setting.binder := by
    intro i handle hhandle
    simp [Stage.start] at hhandle
  have hidentities := Registry.map_identity_descriptors s.registry
  refine ⟨?_, fun i handle hhandle => ?_⟩
  · rw [s.counted, ← List.length_map (f := Descriptor.identity), hidentities, Registry.ledger,
      List.length_map]
  · obtain ⟨before, d, hcreate, hbefore, hd⟩ := h.answered hstart i handle hhandle
    rw [← hidentities] at hbefore hd
    exact ⟨before, d, hcreate, by rw [hbefore, List.map_take], by rw [← List.getElem?_map, hd]⟩

end NestedTables
