import NestedTables.Proofs.Document.Exact
import NestedTables.Proofs.Json.Number

/-!
# What is read in JSON

A document that is read is made of lists, of mappings with each key once and texts for keys, and
of scalars that JSON has; and no integer in it is too long to be written (`Json.isTreeOf_of_read`).

The reader takes a bound, and so does the induction: what it says is said of values, of members and
of properties at once (`Json.Sound`).
-/

namespace NestedTables.Json

/-! ### What a reader gives -/

section Except

variable {ε α β : Type} {x : Except ε α}

theorem exists_of_bind_eq_ok {f : α → Except ε β} {b : β} (h : x >>= f = .ok b) :
    ∃ a, x = .ok a ∧ f a = .ok b := by
  cases x with
  | error e => cases h
  | ok a => exact ⟨a, rfl, h⟩

theorem exists_of_map_eq_ok {f : α → β} {b : β} (h : x.map f = .ok b) :
    ∃ a, x = .ok a ∧ f a = b := by
  cases x with
  | error e => cases h
  | ok a => exact ⟨a, rfl, Except.ok.inj h⟩

end Except

/-! ### Atoms -/

/-- A number is smaller than the power of ten with as many zeros as it has digits. -/
theorem digitsValue_lt {ds : List Char} (hds : AllDigits ds) :
    digitsValue ds < Nat.pow 10 ds.length := by
  induction ds with
  | nil => decide
  | cons d ds ih =>
    have hd := (Char.isDigit_iff_toNat.mp (hds d List.mem_cons_self)).2
    have hrest := ih fun c hc => hds c (List.mem_cons_of_mem d hc)
    have hfirst : digitsValue [d] ≤ 9 := by
      have hdigits : '9'.toNat = 0x30 + 9 := by decide
      have hvalue : digitsValue [d] = d.toNat - 0x30 := by simp [digitsValue]
      omega
    have hpow : Nat.pow 10 (d :: ds).length = 9 * Nat.pow 10 ds.length + Nat.pow 10 ds.length := by
      rw [List.length_cons]
      exact (Nat.pow_succ 10 ds.length).trans (by rw [Nat.mul_succ, Nat.mul_comm]; rfl)
    rw [← List.singleton_append, digitsValue_append, List.singleton_append, hpow]
    exact Nat.add_lt_add_of_le_of_lt (Nat.mul_le_mul_right _ hfirst) hrest

theorem allDigits_wholeDigits (cs : List Char) : AllDigits (wholeDigits cs) := by
  rw [wholeDigits.eq_def]
  split
  · exact allDigits_zeros 1
  · exact List.all_eq_true.mp List.all_takeWhile

theorem digitsValue_lt_of_le {ds : List Char} (hds : AllDigits ds) {k : Nat} (hk : ds.length ≤ k) :
    digitsValue ds < Nat.pow 10 k :=
  Nat.lt_of_lt_of_le (digitsValue_lt hds) (Nat.pow_le_pow_right (by decide) hk)

/-- An integer of not too many digits is short enough to be written. -/
theorem isWritable_digitsValue {ds : List Char} (hds : AllDigits ds)
    (hlength : ds.length ≤ Text.mostDigits) (negative : Prop) [Decidable negative] :
    Text.isWritable (if negative then -(digitsValue ds : Int) else digitsValue ds) = true := by
  have hlt := digitsValue_lt_of_le hds hlength
  split
  · rw [Text.isWritable_neg]
    exact decide_eq_true hlt
  · exact decide_eq_true hlt

theorem number_isReadable {cs rest : List Char} {v : Value} (h : number cs = .ok (v, rest)) :
    v.isTreeOf Scalar.isReadable = true := by
  rw [number] at h
  simp only at h
  generalize (if cs.head? = some '-' then cs.drop 1 else cs) = body at h
  split at h
  · cases h
  · split at h
    · split at h
      · obtain ⟨rfl, -⟩ := Prod.mk.injEq .. ▸ Except.ok.inj h
        rfl
      · next hplaces =>
        split at h
        · cases h
        · next hlength =>
          have hempty : placeDigits (body.drop (wholeDigits body).length) = [] := by
            simpa using hplaces
          obtain ⟨rfl, -⟩ := Prod.mk.injEq .. ▸ Except.ok.inj h
          rw [hempty, List.append_nil, Value.isTreeOf, Scalar.isReadable_int]
          exact isWritable_digitsValue (allDigits_wholeDigits body) (Nat.not_lt.mp hlength) _
    · obtain ⟨rfl, -⟩ := Prod.mk.injEq .. ▸ Except.ok.inj h
      rfl

theorem atom_isReadable {cs rest : List Char} {v : Value} (h : atom cs = .ok (v, rest)) :
    v.isTreeOf Scalar.isReadable = true := by
  rw [atom] at h
  split at h
  · next word w hfind =>
    have hmem := List.mem_of_find?_eq_some hfind
    have hall : ∀ e ∈ words, e.2.isTreeOf Scalar.isReadable = true := by decide
    obtain ⟨rfl, -⟩ := Prod.mk.injEq .. ▸ Except.ok.inj h
    exact hall _ hmem
  · exact number_isReadable h

/-! ### Documents -/

/-- What is read with a bound is sound, with or without a stand-in for surrogates. -/
structure Sound (standIn : Option Char) (bound : Nat) : Prop where
  value : ∀ {cs rest : List Char} {v : Value}, value standIn bound cs = .ok (v, rest) →
    v.isTreeOf Scalar.isReadable = true
  members : ∀ {cs rest : List Char} {es : List (Scalar × Value)},
    members standIn bound cs = .ok (es, rest) →
      ∀ e ∈ es, e.1.isText = true ∧ e.2.isTreeOf Scalar.isReadable = true
  items : ∀ {cs rest : List Char} {vs : List Value}, items standIn bound cs = .ok (vs, rest) →
    ∀ v ∈ vs, v.isTreeOf Scalar.isReadable = true

variable {standIn : Option Char} {bound : Nat}

/-- Nothing is read without a bound. -/
theorem sound_zero : Sound standIn 0 where
  value h := by
    rw [value] at h
    cases h
  members h := by
    rw [members] at h
    cases h
  items h := by
    rw [items] at h
    cases h

theorem Sound.value_succ (h : Sound standIn bound) {cs rest : List Char} {v : Value}
    (hread : Json.value standIn (bound + 1) cs = .ok (v, rest)) :
    v.isTreeOf Scalar.isReadable = true := by
  cases cs with
  | nil =>
    rw [value.eq_def] at hread
    cases hread
  | cons c cs =>
    rw [value.eq_def] at hread
    simp only at hread
    split at hread
    · -- a text
      obtain ⟨t, -, heq⟩ := exists_of_map_eq_ok hread
      obtain ⟨rfl, -⟩ := Prod.mk.injEq .. ▸ heq
      rfl
    · split at hread
      · split at hread
        · cases hread
        · split at hread
          · obtain ⟨rfl, -⟩ := Prod.mk.injEq .. ▸ Except.ok.inj hread
            rfl
          · obtain ⟨⟨es, more⟩, hmembers, heq⟩ := exists_of_map_eq_ok hread
            obtain ⟨rfl, -⟩ := Prod.mk.injEq .. ▸ heq
            refine (Value.isTreeOf_map_iff _).mpr ⟨Entries.distinct_ofPairs es, fun e he => ?_⟩
            exact h.members hmembers e (Entries.mem_of_mem_ofPairs he)
      · split at hread
        · split at hread
          · obtain ⟨rfl, -⟩ := Prod.mk.injEq .. ▸ Except.ok.inj hread
            rfl
          · obtain ⟨⟨vs, more⟩, hitems, heq⟩ := exists_of_map_eq_ok hread
            obtain ⟨rfl, -⟩ := Prod.mk.injEq .. ▸ heq
            exact (Value.itemsTreeOf_iff vs).mpr (h.items hitems)
        · exact atom_isReadable hread

theorem Sound.members_succ (h : Sound standIn bound) {cs rest : List Char}
    {es : List (Scalar × Value)} (hread : Json.members standIn (bound + 1) cs = .ok (es, rest)) :
    ∀ e ∈ es, e.1.isText = true ∧ e.2.isTreeOf Scalar.isReadable = true := by
  rw [members.eq_def] at hread
  simp only at hread
  split at hread
  · obtain ⟨⟨key, afterKey⟩, -, hread⟩ := exists_of_bind_eq_ok hread
    simp only at hread
    split at hread
    · obtain ⟨⟨v, more⟩, hvalue, hread⟩ := exists_of_bind_eq_ok hread
      have hfirst : (Scalar.text (String.ofList key)).isText = true ∧
          v.isTreeOf Scalar.isReadable = true := ⟨rfl, h.value hvalue⟩
      simp only at hread
      split at hread
      · obtain ⟨⟨fs, last⟩, hmembers, hread⟩ := exists_of_bind_eq_ok hread
        obtain ⟨rfl, -⟩ := Prod.mk.injEq .. ▸ Except.ok.inj hread
        exact List.forall_mem_cons.mpr ⟨hfirst, h.members hmembers⟩
      · cases hread
      · split at hread
        · obtain ⟨rfl, -⟩ := Prod.mk.injEq .. ▸ Except.ok.inj hread
          exact List.forall_mem_singleton.mpr hfirst
        · cases hread
    · cases hread
  · cases hread

theorem Sound.items_succ (h : Sound standIn bound) {cs rest : List Char} {vs : List Value}
    (hread : Json.items standIn (bound + 1) cs = .ok (vs, rest)) :
    ∀ v ∈ vs, v.isTreeOf Scalar.isReadable = true := by
  rw [items.eq_def] at hread
  simp only at hread
  obtain ⟨⟨v, more⟩, hvalue, hread⟩ := exists_of_bind_eq_ok hread
  simp only at hread
  split at hread
  · obtain ⟨⟨ws, last⟩, hitems, hread⟩ := exists_of_bind_eq_ok hread
    obtain ⟨rfl, -⟩ := Prod.mk.injEq .. ▸ Except.ok.inj hread
    exact List.forall_mem_cons.mpr ⟨h.value hvalue, h.items hitems⟩
  · obtain ⟨rfl, -⟩ := Prod.mk.injEq .. ▸ Except.ok.inj hread
    exact List.forall_mem_singleton.mpr (h.value hvalue)
  · cases hread

theorem sound (standIn : Option Char) (bound : Nat) : Sound standIn bound := by
  induction bound with
  | zero => exact sound_zero
  | succ bound ih => exact ⟨ih.value_succ, ih.members_succ, ih.items_succ⟩

theorem isTreeOf_of_readWith {cs : List Char} {v : Value} (h : readWith standIn cs = .ok v) :
    v.isTreeOf Scalar.isReadable = true := by
  rw [readWith] at h
  split at h
  · cases h
  · split at h
    · cases h
    · next w rest hvalue =>
      split at h
      · obtain rfl := Except.ok.inj h
        exact (sound standIn _).value hvalue
      · cases h

/-- **What is read in JSON** is built as a JSON document is, and its integers can be written. -/
theorem isTreeOf_of_read {s : String} {v : Value} (h : read s = .ok v) :
    v.isTreeOf Scalar.isReadable = true := by
  rw [read, readChars] at h
  split at h
  · cases h
  · exact isTreeOf_of_readWith h

/-- Whether a text is JSON in which a surrogate stands alone. -/
def HasLoneSurrogate (s : String) : Prop :=
  ∃ remaining, read s = .error ⟨.loneSurrogate, remaining⟩

end NestedTables.Json
