import NestedTables.Proofs.Override.Complaints
import NestedTables.Proofs.Schema.Exact

/-!
# Findings that can be written

The message of a finding shows a value of the schema, and a value with an integer of too many
digits cannot be shown. If a schema is a tree of scalars that can be written, then it has no such
integer, and all findings about it can be written (`Override.unwritable?_eq_none`).
-/

namespace NestedTables

variable {settings : Settings} {schema node : Fields} {test : Scalar → Bool}

namespace Override

section Tree

variable (htest : ∀ s, test s = true → s.isWritable = true)
include htest

/-! ### The complaints about a node -/

theorem isWritable_valueComplaints (h : (Value.map node).isTreeOf test = true) :
    ∀ c ∈ valueComplaints settings node, c.isWritable = true := by
  intro c hc
  rcases mem_valueComplaints_iff.mp hc with (⟨o, -, ho⟩ | htitle) | ⟨e, -, he⟩
  · obtain ⟨v, hv, rfl⟩ | ⟨_, rfl⟩ := textComplaint?_cases ho
    · exact Fields.isWritable_of_value? htest h hv
    · rfl
  · rw [titleComplaint?_cases htitle]
    exact Fields.isWritable_value htest h "title"
  · obtain ⟨_, -, rfl⟩ := keyComplaint?_cases he
    rfl

theorem isWritable_joinComplaints (tables : List String)
    (h : (Value.map node).isTreeOf test = true) :
    ∀ c ∈ joinComplaints settings tables node, c.isWritable = true := by
  intro c hc
  rcases joinComplaints_cases hc with rfl | ⟨_, _, rfl⟩ | ⟨v, hv, hthrough⟩
  · rfl
  · rfl
  · obtain ⟨_, rfl⟩ | ⟨_, rfl⟩ | ⟨_, _, rfl⟩ | ⟨_, rfl⟩ := throughComplaint?_cases hthrough
    · exact Fields.isWritable_of_value? htest h hv
    · rfl
    · rfl
    · rfl

/-! ### The findings about a schema -/

omit htest in
theorem canReport_of_isTreeOf {complaints : Fields → List Complaint}
    (hcomplaints : ∀ {node : Fields}, (Value.map node).isTreeOf test = true →
      ∀ c ∈ complaints node, c.isWritable = true)
    (h : (Value.map schema).isTreeOf test = true) : canReport complaints schema = true := by
  refine List.all_eq_true.mpr fun n hn => ?_
  obtain ⟨hpointer, hexact⟩ := Fields.isTree_of_mem_nodes h n hn
  rw [Bool.and_eq_true]
  exact ⟨hpointer, List.all_eq_true.mpr (hcomplaints hexact)⟩

/-- **All findings about a schema can be written** if its scalars can. -/
theorem unwritable?_eq_none (h : (Value.map schema).isTreeOf test = true) (settings : Settings) :
    unwritable? settings schema = none := by
  unfold unwritable?
  rw [canReport_of_isTreeOf (isWritable_valueComplaints htest) h,
    canReport_of_isTreeOf (isWritable_joinComplaints htest _) h]
  rfl

end Tree

end Override

end NestedTables
