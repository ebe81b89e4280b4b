import NestedTables.Proofs.Document.Keyed

/-!
# Documents that JSON can write

A JSON document has lists and objects, and the keys of an object are texts, each of them there once.
`Value.isTreeOf` decides this, together with a test that all scalars of the document have to pass.
JSON has a form for null, truth values, numbers and texts, so `Value.isJson` is the test for them.
It passes on to everything in an object (`Fields.isJson_of_mem`).
-/

namespace NestedTables

/-- Whether JSON has a form for a scalar. -/
def Scalar.isJson : Scalar → Bool
  | .null | .bool _ | .int _ | .real _ | .text _ => true
  | .date _ | .moment _ | .bytes _ => false

namespace Value

variable {p : Scalar → Bool}

mutual

/-- Whether a document is made of lists, of mappings with each key once and texts for keys, and
of scalars that pass a test. -/
def isTreeOf (p : Scalar → Bool) : Value → Bool
  | .scalar s => p s
  | .list items => itemsTreeOf p items
  | .map es => decide (Entries.keys es).Nodup && entriesTreeOf p es
  | .set _ | .pair _ _ => false

def itemsTreeOf (p : Scalar → Bool) : List Value → Bool
  | [] => true
  | v :: vs => isTreeOf p v && itemsTreeOf p vs

def entriesTreeOf (p : Scalar → Bool) : List (Scalar × Value) → Bool
  | [] => true
  | (k, v) :: es => k.isText && isTreeOf p v && entriesTreeOf p es

end

theorem itemsTreeOf_iff (items : List Value) :
    itemsTreeOf p items = true ↔ ∀ v ∈ items, v.isTreeOf p = true := by
  induction items with
  | nil => simp [itemsTreeOf]
  | cons v vs ih => simp [itemsTreeOf, ih]

theorem entriesTreeOf_iff (es : Fields) :
    entriesTreeOf p es = true ↔ ∀ e ∈ es, e.1.isText = true ∧ e.2.isTreeOf p = true := by
  induction es with
  | nil => simp [entriesTreeOf]
  | cons e es ih =>
    obtain ⟨k, v⟩ := e
    simp [entriesTreeOf, ih]

theorem isTreeOf_map_iff (es : Fields) :
    (Value.map es).isTreeOf p = true ↔
      Entries.Distinct es ∧ ∀ e ∈ es, e.1.isText = true ∧ e.2.isTreeOf p = true := by
  rw [isTreeOf, Bool.and_eq_true, decide_eq_true_eq, entriesTreeOf_iff, Entries.Distinct]

/-- Whether a document is one that JSON can write. -/
def isJson (v : Value) : Bool :=
  v.isTreeOf Scalar.isJson

end Value

namespace Fields

/-- Whether a mapping is a JSON object. -/
def isJson (node : Fields) : Bool :=
  (Value.map node).isJson

variable {node : Fields}

/-- A value of a JSON object is a JSON document. -/
theorem isJson_of_mem (h : node.isJson = true) {e : Scalar × Value} (he : e ∈ node) :
    e.2.isJson = true :=
  (((Value.isTreeOf_map_iff node).mp h).2 e he).2

theorem isJson_of_value? (h : node.isJson = true) {key : String} {v : Value}
    (hv : node.value? key = some v) : v.isJson = true :=
  isJson_of_mem h (Entries.mem_of_get?_eq_some hv)

theorem isJson_of_mapping? (h : node.isJson = true) {key : String} {sub : Fields}
    (hsub : node.mapping? key = some sub) : sub.isJson = true := by
  obtain ⟨v, hv, hfields⟩ := Option.bind_eq_some_iff.mp hsub
  have hmap : v = .map sub := by
    cases v <;> simp [Value.fields?] at hfields
    rw [hfields]
  subst hmap
  exact isJson_of_value? h hv

end Fields

end NestedTables
