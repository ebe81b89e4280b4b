/-!
# Entries in written order

A mapping whose order can be seen is a list of pairs: the keys in the order of their first
appearance. This file has the operations on such lists, with one small lemma each that says
what they do to look-up or to the list of keys.

The keys of a list that these operations build are distinct. That is a predicate beside the
data, `Entries.Distinct`, and not part of the type, so that recursion over nested mappings
stays recursion over lists.
-/

namespace NestedTables

/-- Keys with their values, in order. -/
abbrev Entries (κ α : Type) := List (κ × α)

namespace Entries

variable {κ α β : Type}

def keys (es : Entries κ α) : List κ :=
  es.map (·.1)

/-- No key appears twice. -/
def Distinct (es : Entries κ α) : Prop :=
  (keys es).Nodup

variable [DecidableEq κ]

/-- The value of a key. -/
def get? (k : κ) : Entries κ α → Option α
  | [] => none
  | (k', v) :: es => if k' = k then some v else get? k es

def has (k : κ) (es : Entries κ α) : Bool :=
  (get? k es).isSome

/-- Gives a key a value: in its place if it is there, at the end otherwise. -/
def put (k : κ) (v : α) : Entries κ α → Entries κ α
  | [] => [(k, v)]
  | (k', v') :: es => if k' = k then (k, v) :: es else (k', v') :: put k v es

/-- Gives a key a value unless it has one. -/
def putNew (k : κ) (v : α) (es : Entries κ α) : Entries κ α :=
  if has k es then es else es ++ [(k, v)]

/-- The entries with the later values of repeated keys in the places of the first. -/
def ofPairs (es : List (κ × α)) : Entries κ α :=
  es.foldl (fun es e => put e.1 e.2 es) []

/-- The entries with their values replaced. -/
def mapValues (f : α → β) (es : Entries κ α) : Entries κ β :=
  es.map fun e => (e.1, f e.2)

@[simp] theorem get?_nil (k : κ) : get? k ([] : Entries κ α) = none := rfl

@[simp] theorem get?_cons (k k' : κ) (v : α) (es : Entries κ α) :
    get? k ((k', v) :: es) = if k' = k then some v else get? k es := rfl

theorem get?_put (k k' : κ) (v : α) (es : Entries κ α) :
    get? k' (put k v es) = if k = k' then some v else get? k' es := by
  induction es with
  | nil => simp [put]
  | cons e es ih =>
    obtain ⟨j, w⟩ := e
    by_cases h : j = k
    · subst h; by_cases hk : j = k' <;> simp [put, hk]
    · by_cases hj : j = k'
      · subst hj; simp [put, h, Ne.symm h]
      · by_cases hk : k = k' <;> simp_all [put]

theorem get?_append (k : κ) (es fs : Entries κ α) :
    get? k (es ++ fs) = (get? k es).or (get? k fs) := by
  induction es with
  | nil => simp
  | cons e es ih => obtain ⟨j, w⟩ := e; by_cases h : j = k <;> simp [h, ih]

theorem mem_keys_iff (k : κ) (es : Entries κ α) : k ∈ keys es ↔ (get? k es).isSome := by
  induction es with
  | nil => simp [keys]
  | cons e es ih =>
    obtain ⟨j, w⟩ := e
    by_cases h : j = k
    · simp [keys, h]
    · have h' : ¬ k = j := fun e => h e.symm
      simpa [keys, h, h'] using ih

theorem has_iff (k : κ) (es : Entries κ α) : has k es = true ↔ k ∈ keys es := by
  rw [mem_keys_iff, has]

theorem keys_put (k : κ) (v : α) (es : Entries κ α) :
    keys (put k v es) = if k ∈ keys es then keys es else keys es ++ [k] := by
  induction es with
  | nil => simp [put, keys]
  | cons e es ih =>
    obtain ⟨j, w⟩ := e
    have hcons : ∀ v' (fs : Entries κ α), keys ((j, v') :: fs) = j :: keys fs := fun _ _ => rfl
    by_cases h : j = k
    · simp [put, h, keys]
    · have h' : ¬ k = j := fun e => h e.symm
      simp only [put, h, if_false, hcons, ih, List.mem_cons, h', false_or]
      split <;> rfl

theorem Distinct.put {es : Entries κ α} (h : Distinct es) (k : κ) (v : α) :
    Distinct (put k v es) := by
  unfold Distinct at *
  rw [keys_put]
  split
  · exact h
  · rename_i hk
    rw [List.nodup_append]
    exact ⟨h, by simp, fun a ha b hb => by
      simp only [List.mem_singleton] at hb; subst hb; intro e; exact hk (e ▸ ha)⟩

end Entries

end NestedTables
