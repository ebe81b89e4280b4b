import Mathlib.Data.List.Induction
import NestedTables.Proofs.Schema.Way

/-!
# Arrays of tables that no table owns

An array of tables becomes a relation of the table around it if it is the value of a property. It
is *loose* otherwise: there is no table around it, or it stands as the items of another node, or it
is the root. `Fields.Loose` says this of the node at the end of a way, seen from any node on the way
there, with what is known of the way up to that node; so it can be followed step by step
(`Fields.loose_cons`).

From the root, an array is loose exactly if its items are not both enclosed by a table and reached
from it (`Fields.loose_root_iff`).
-/

namespace NestedTables.Fields

variable {root node sub items : Fields} {way : List Step} {step last : Step}

/-! ### Tables on a way -/

/-- Whether a table stands on a way, its start and its end included. -/
def TableOn (node : Fields) (way : List Step) : Prop :=
  ∃ mid, mid <+: way ∧ ∃ n, node.down? mid = some n ∧ n.isTable = true

@[simp] theorem tableOn_nil : node.TableOn [] ↔ node.isTable = true := by
  constructor
  · rintro ⟨mid, hmid, n, hn, htable⟩
    obtain rfl := List.prefix_nil.mp hmid
    exact Option.some.inj hn ▸ htable
  · exact fun h => ⟨[], List.prefix_rfl, node, rfl, h⟩

theorem tableOn_cons (hsub : Entries.get? step node.children = some sub) :
    node.TableOn (step :: way) ↔ node.isTable = true ∨ sub.TableOn way := by
  have hdown : ∀ mid, node.down? (step :: mid) = sub.down? mid := by
    intro mid
    rw [down?_cons, hsub, Option.bind_some]
  constructor
  · rintro ⟨mid, hmid, n, hn, htable⟩
    cases mid with
    | nil => exact Or.inl (Option.some.inj hn ▸ htable)
    | cons step' mid =>
      obtain ⟨rfl, hinit⟩ := List.cons_prefix_cons.mp hmid
      exact Or.inr ⟨mid, hinit, n, hdown mid ▸ hn, htable⟩
  · rintro (h | ⟨mid, hmid, n, hn, htable⟩)
    · exact ⟨[], List.nil_prefix, node, rfl, h⟩
    · exact ⟨step :: mid, (List.prefix_cons_inj step).mpr hmid, n, (hdown mid).trans hn, htable⟩

/-- **A table encloses the end of a way** if one stands on the way before its end: the last one. -/
theorem exists_encloses_iff :
    (∃ u, root.Encloses u (way ++ [last])) ↔ root.TableOn way := by
  constructor
  · rintro ⟨u, table, between, last', hdown, htable, -, heq⟩
    obtain ⟨rfl, -⟩ := List.append_inj' heq rfl
    exact ⟨u, List.prefix_append _ _, table, hdown, htable⟩
  · intro h
    induction way using List.reverseRecOn generalizing last with
    | nil => exact ⟨[], root, [], last, rfl, tableOn_nil.mp h, clear_nil root, rfl⟩
    | append_singleton way step ih =>
      by_cases hend : ∃ n, root.down? (way ++ [step]) = some n ∧ n.isTable = true
      · obtain ⟨n, hn, htable⟩ := hend
        exact ⟨way ++ [step], n, [], last, hn, htable, clear_nil n, by rw [List.append_nil]⟩
      · -- there is no table at the end, so it is further up
        have habove : root.TableOn way := by
          obtain ⟨mid, hmid, n, hn, htable⟩ := h
          rcases List.prefix_concat_iff.mp hmid with rfl | hmid
          · exact absurd ⟨n, hn, htable⟩ hend
          · exact ⟨mid, hmid, n, hn, htable⟩
        obtain ⟨u, table, between, last', hdown, htable, hclear, heq⟩ := @ih step habove
        obtain ⟨rfl, hlast⟩ := List.append_inj' heq rfl
        obtain rfl : last' = step := by simpa using hlast.symm
        refine ⟨u, table, between ++ [last'], last, hdown, htable, ?_, by simp⟩
        refine clear_append_singleton.mpr ⟨hclear, fun n hn => ?_⟩
        by_contra hno
        refine hend ⟨n, ?_, by simpa using hno⟩
        rw [List.append_assoc, down?_append, hdown]
        exact hn

/-- The items of a node that is no table are reached if the node is the value of a property. -/
theorem isReached_items_iff (hnode : root.down? way = some node) (htable : node.isTable = false) :
    root.IsReached (way ++ [.items]) ↔ ∃ k, way.getLast? = some (.property k) := by
  constructor
  · rintro (⟨v, k, heq⟩ | ⟨v, k, array, heq, -, -⟩)
    · have hlast := (List.append_inj' heq rfl).2
      simp at hlast
    · rw [List.append_cons v] at heq
      obtain ⟨rfl, -⟩ := List.append_inj' heq rfl
      exact ⟨k, List.getLast?_concat⟩
  · rintro ⟨k, hlast⟩
    obtain ⟨v, rfl⟩ := List.getLast?_eq_some_iff.mp hlast
    exact Or.inr ⟨v, k, node, by simp, hnode, htable⟩

/-! ### Loose arrays -/

/-- Whether the node at the end of a way is an array of tables, with these items, that no table
owns. The way starts at a node that is reached by `step` itself, and `inside` says whether a table
stands above that node. -/
def Loose (inside : Prop) (step : Option Step) (node : Fields) (way : List Step)
    (items : Fields) : Prop :=
  ∃ array : Fields, node.down? way = some array ∧ array.kind = .arrayOfTable ∧
    array.mapping? "items" = some items ∧
      ((∃ k, (step.toList ++ way).getLast? = some (.property k)) →
        ¬ (inside ∨ node.TableOn way))

variable {inside : Prop} {above : Option Step}

/-- One step further down. -/
theorem loose_cons (hsub : Entries.get? step node.children = some sub) :
    node.Loose inside above (step :: way) items ↔
      sub.Loose (inside ∨ node.isTable = true) (some step) way items := by
  have hlast : (above.toList ++ step :: way).getLast? = ((some step).toList ++ way).getLast? := by
    rw [List.getLast?_append_cons]
    rfl
  have hdown : node.down? (step :: way) = sub.down? way := by
    rw [down?_cons, hsub, Option.bind_some]
  rw [Loose, Loose, hdown, hlast, tableOn_cons hsub, or_assoc]

/-- **A loose array in a schema** is one whose items are not both enclosed and reached. -/
theorem loose_root_iff : root.Loose False none way items ↔
    ∃ array : Fields, root.down? way = some array ∧ array.kind = .arrayOfTable ∧
      array.mapping? "items" = some items ∧
        ¬ ((∃ u, root.Encloses u (way ++ [.items])) ∧ root.IsReached (way ++ [.items])) := by
  refine exists_congr fun array => and_congr_right fun hdown => and_congr_right fun hkind =>
    and_congr_right fun _ => ?_
  rw [exists_encloses_iff, isReached_items_iff hdown (exists_items_of_kind hkind).1, false_or,
    Option.toList_none, List.nil_append, not_and']

end NestedTables.Fields
