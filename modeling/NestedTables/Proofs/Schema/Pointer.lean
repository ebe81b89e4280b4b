import Mathlib.Data.List.Basic
import NestedTables.Proofs.Schema.Way

/-!
# Reading pointers back

Errors show a pointer as a text. `Pointer.keys?` reads such a text by the rules of RFC 6901: after
the `#`, a slash stands before each key, and every tilde in a key has a digit behind it. In each key
`~1` is replaced by a slash first, and then `~0` by a tilde. The order matters: the other way round,
the key `~1` would be read as a slash. What is written is read back (`Pointer.keys?_written`).

`Value.at?` follows a pointer into a document, through mappings and through lists, where the key is
a place in digits. The pointer that a walk has made on a way leads where the way leads
(`Fields.at?_ofWay`), and its text leads there as well, since its keys are texts.
-/

namespace NestedTables

namespace Pointer

/-! ### The text of a pointer -/

/-- Whether every tilde stands before one of the two digits. -/
def isEscaped : List Char → Bool
  | '~' :: d :: cs => (d = '0' || d = '1') && isEscaped cs
  | ['~'] => false
  | _ :: cs => isEscaped cs
  | [] => true

/-- A text in which a character has replaced every tilde with some digit behind it. -/
def replaced (digit c : Char) : List Char → List Char
  | '~' :: d :: cs =>
    if d = digit then c :: replaced digit c cs else '~' :: replaced digit c (d :: cs)
  | d :: cs => d :: replaced digit c cs
  | [] => []

/-- The key that a part of a pointer stands for. -/
def unescaped? (token : List Char) : Option (List Char) :=
  if isEscaped token then some (replaced '0' '~' (replaced '1' '/' token)) else none

/-- The keys of a pointer that is written after a `#`. -/
def keys? (text : String) : Option (List String) :=
  match text.toList with
  | ['#'] => some []
  | '#' :: '/' :: tokens =>
    (tokens.splitOn '/').mapM fun token => (unescaped? token).map String.ofList
  | _ => none

theorem isEscaped_cons {c : Char} (h : c ≠ '~') (cs : List Char) :
    isEscaped (c :: cs) = isEscaped cs := by
  rw [isEscaped]
  · rintro _ _ rfl
    exact absurd rfl h
  · rintro rfl
    exact absurd rfl h

theorem replaced_cons {d : Char} (h : d ≠ '~') (digit c : Char) (cs : List Char) :
    replaced digit c (d :: cs) = d :: replaced digit c cs := by
  rw [replaced]
  rintro _ _ rfl
  exact absurd rfl h

theorem replaced_tilde (digit c : Char) (cs : List Char) :
    replaced digit c ('~' :: digit :: cs) = c :: replaced digit c cs := by
  rw [replaced, if_pos rfl]

/-- A tilde with another digit behind it stays. -/
theorem replaced_tilde_of_ne {digit d : Char} (hne : d ≠ digit) (hd : d ≠ '~') (c : Char)
    (cs : List Char) : replaced digit c ('~' :: d :: cs) = '~' :: d :: replaced digit c cs := by
  rw [replaced, if_neg hne, replaced_cons hd]

theorem isEscaped_escaped (key : List Char) : isEscaped (escaped key) = true := by
  induction key with
  | nil => rfl
  | cons c key ih =>
    rw [escaped, List.flatMap_cons, ← escaped]
    unfold escapedChar
    split
    · simpa [isEscaped] using ih
    · next htilde =>
      split
      · simpa [isEscaped] using ih
      · rw [List.singleton_append, isEscaped_cons htilde, ih]

/-- **The two replacements undo the escapes.** -/
theorem replaced_replaced_escaped (key : List Char) :
    replaced '0' '~' (replaced '1' '/' (escaped key)) = key := by
  induction key with
  | nil => rfl
  | cons c key ih =>
    rw [escaped, List.flatMap_cons, ← escaped]
    unfold escapedChar
    split
    · next h =>
      subst h
      rw [List.cons_append, List.singleton_append,
        replaced_tilde_of_ne (by decide) (by decide), replaced_tilde, ih]
    · next htilde =>
      split
      · next h =>
        subst h
        rw [List.cons_append, List.singleton_append, replaced_tilde, replaced_cons (by decide), ih]
      · rw [List.singleton_append, replaced_cons htilde, replaced_cons htilde, ih]

theorem unescaped?_escaped (key : List Char) : unescaped? (escaped key) = some key := by
  rw [unescaped?, if_pos (isEscaped_escaped key), replaced_replaced_escaped]

theorem slash_not_mem_escaped (key : List Char) : '/' ∉ escaped key := by
  intro h
  obtain ⟨c, -, hc⟩ := List.mem_flatMap.mp h
  unfold escapedChar at hc
  split at hc
  · simp at hc
  · split at hc
    · simp at hc
    · next hslash => exact hslash (List.mem_singleton.mp hc).symm

/-- The keys of a written pointer stand between its slashes. -/
theorem splitOn_written (k : Scalar) (p : Pointer) :
    (escaped k.plain.toList ++ p.flatMap segment).splitOn '/' =
      (k :: p).map fun k => escaped k.plain.toList := by
  induction p generalizing k with
  | nil =>
    rw [List.flatMap_nil, List.append_nil,
      List.splitOn_eq_singleton (slash_not_mem_escaped _), List.map_cons, List.map_nil]
  | cons k' p ih =>
    rw [List.flatMap_cons, segment, List.cons_append,
      List.splitOn_append_cons_self_of_not_mem (slash_not_mem_escaped _), ih]
    rfl

/-- **A written pointer is read back.** -/
theorem keys?_written (p : Pointer) : keys? p.written = some (p.map Scalar.plain) := by
  cases p with
  | nil => rfl
  | cons k p =>
    have hchars : (written (k :: p)).toList =
        '#' :: '/' :: (escaped k.plain.toList ++ p.flatMap segment) := by
      simp [written, segment]
    -- no slash is left in an escaped key, so the slashes are those between the keys
    have hkey : (fun key => (unescaped? key).map String.ofList) ∘
        (fun k : Scalar => escaped k.plain.toList) = fun k => some k.plain := by
      funext k
      simp [unescaped?_escaped]
    rw [keys?, hchars]
    simp only [splitOn_written, List.mapM_map, hkey]
    exact List.mapM_pure

/-- Keys that are texts are told by their texts. -/
theorem map_text_plain {p : Pointer} (h : ∀ k ∈ p, k.isText = true) :
    (p.map Scalar.plain).map Scalar.text = p := by
  rw [List.map_map]
  refine (List.map_congr_left fun k hk => ?_).trans (List.map_id p)
  obtain ⟨s, rfl⟩ := Scalar.isText_iff.mp (h k hk)
  rfl

/-- **Pointers of texts are told by what is written.** -/
theorem eq_of_written_eq {p q : Pointer} (hp : ∀ k ∈ p, k.isText = true)
    (hq : ∀ k ∈ q, k.isText = true) (h : p.written = q.written) : p = q := by
  have hkeys := congrArg keys? h
  rw [keys?_written, keys?_written, Option.some.injEq] at hkeys
  rw [← map_text_plain hp, ← map_text_plain hq, hkeys]

end Pointer

/-! ### Following a pointer -/

/-- The element of a list whose place is a key, in digits. -/
def Value.element? (vs : List Value) : Scalar → Option Value
  | .text s =>
    let place := Nat.ofDigitChars 10 s.toList 0
    if toString place = s then vs[place]? else none
  | _ => none

/-- The value at the end of a pointer into a document. -/
def Value.at? : Value → Pointer → Option Value
  | v, [] => some v
  | .map es, k :: p => (Entries.get? k es).bind fun v => v.at? p
  | .list vs, k :: p => (element? vs k).bind fun v => v.at? p
  | _, _ :: _ => none

/-- The value that a pointer shown as a text leads to. -/
def Value.atText? (v : Value) (text : String) : Option Value :=
  (Pointer.keys? text).bind fun keys => v.at? (keys.map .text)

namespace Value

theorem ofDigitChars_toString (n : Nat) : Nat.ofDigitChars 10 (toString n).toList 0 = n := by
  rw [Nat.toString_eq_repr]
  simp

theorem element?_toString (vs : List Value) (place : Nat) :
    element? vs (.text (toString place)) = vs[place]? := by
  simp only [element?, ofDigitChars_toString, if_true]

theorem exists_place_of_element? {vs : List Value} {k : Scalar} {v : Value}
    (h : element? vs k = some v) :
    ∃ place : Nat, k = .text (toString place) ∧ vs[place]? = some v := by
  cases k with
  | text s =>
    simp only [element?] at h
    split at h
    · next hs => exact ⟨_, congrArg _ hs.symm, h⟩
    · simp at h
  | _ => simp [element?] at h

@[simp] theorem at?_nil (v : Value) : v.at? [] = some v := by
  cases v <;> rfl

theorem at?_append (v : Value) (p q : Pointer) :
    v.at? (p ++ q) = (v.at? p).bind fun w => w.at? q := by
  induction p generalizing v with
  | nil => rw [List.nil_append, at?_nil, Option.bind_some]
  | cons k p ih =>
    cases v with
    | map es | list vs =>
      rw [List.cons_append, at?, at?, Option.bind_assoc]
      exact congrArg _ (funext ih)
    | _ => rfl

/-- A pointer leads to a mapping from a mapping or from a list only. -/
theorem eq_map_or_list_of_at? {v : Value} {p : Pointer} {sub : Fields}
    (h : v.at? p = some (.map sub)) : (∃ es, v = .map es) ∨ ∃ vs, v = .list vs := by
  cases v with
  | map es => exact Or.inl ⟨es, rfl⟩
  | list vs => exact Or.inr ⟨vs, rfl⟩
  | _ => cases p <;> simp [at?] at h

/-- **A pointer of texts that is shown as a text leads where it leads.** -/
theorem atText?_written (v : Value) {p : Pointer} (h : ∀ k ∈ p, k.isText = true) :
    v.atText? p.written = v.at? p := by
  rw [atText?, Pointer.keys?_written, Option.bind_some, Pointer.map_text_plain h]

end Value

/-! ### Pointers of ways -/

namespace Fields

variable {root node : Fields} {way : List Step}

/-- A step leads to the child that it reaches. -/
theorem at?_of_mem_children (hkeyed : node.isKeyed = true) {c : Step × Fields}
    (hc : c ∈ node.children) : (Value.map node).at? c.1.path = some (.map c.2) := by
  have hfield : ∀ {key : String} {sub : Fields}, node.mapping? key = some sub →
      Entries.get? (.text key) node = some (.map sub) := by
    intro key sub hsub
    obtain ⟨v, hv, hfields⟩ := Option.bind_eq_some_iff.mp hsub
    cases v with
    | map es =>
      obtain rfl : es = sub := by simpa [Value.fields?] using hfields
      exact hv
    | _ => simp [Value.fields?] at hfields
  obtain ⟨step, sub⟩ := c
  cases step with
  | property name =>
    obtain ⟨properties, hproperties, hmem⟩ := property_mem_children_iff.mp hc
    have hd := ((isKeyed_iff properties).mp (isKeyed_of_mapping? hkeyed hproperties)).1
    simp [Step.path, Value.at?, hfield hproperties, Entries.get?_eq_some_of_mem hd hmem]
  | items => simp [Step.path, Value.at?, hfield (items_mem_children_iff.mp hc)]

/-- **The pointer of a way** leads where the way leads. -/
theorem at?_ofWay (hkeyed : root.isKeyed = true) (h : root.down? way = some node) :
    (Value.map root).at? (Pointer.ofWay way) = some (.map node) := by
  induction way generalizing root with
  | nil =>
    obtain rfl := Option.some.inj h
    exact Value.at?_nil _
  | cons step way ih =>
    obtain ⟨sub, hsub, hdown⟩ := Option.bind_eq_some_iff.mp h
    have hc := Entries.mem_of_get?_eq_some hsub
    rw [Pointer.ofWay_cons, Value.at?_append, at?_of_mem_children hkeyed hc, Option.bind_some]
    exact ih (isKeyed_of_mem_children hkeyed hc) hdown

/-- The keys of the pointer of a way are texts. -/
theorem isText_ofWay (hkeyed : root.isKeyed = true) (h : root.down? way = some node) :
    ∀ k ∈ Pointer.ofWay way, k.isText = true := by
  induction way generalizing root with
  | nil => simp [Pointer.ofWay]
  | cons step way ih =>
    obtain ⟨sub, hsub, hdown⟩ := Option.bind_eq_some_iff.mp h
    have hc := Entries.mem_of_get?_eq_some hsub
    rw [Pointer.ofWay_cons]
    refine List.forall_mem_append.mpr ⟨?_, ih (isKeyed_of_mem_children hkeyed hc) hdown⟩
    cases step with
    | items => exact List.forall_mem_singleton.mpr rfl
    | property name =>
      have hstep : root.down? ([] ++ [.property name]) = some sub := by
        rw [List.nil_append, down?_cons, hsub]
        rfl
      obtain ⟨name, rfl⟩ := exists_text_of_down? hkeyed hstep
      exact List.forall_mem_cons.mpr ⟨rfl, List.forall_mem_singleton.mpr rfl⟩

end Fields

namespace Tree

variable {node : Fields}

/-- **The nodes of the region of a table** lie at the ends of ways, as all visited nodes do. -/
theorem exists_down?_of_region (hkeyed : node.isKeyed = true) {t : Pointer × Tree}
    (ht : t ∈ (ofFields node).tables) {n : List Step × Tree} (hn : n ∈ t.2.region) :
    ∃ way, node.down? way = some n.2.fields ∧ Pointer.ofWay way = t.1 ++ Pointer.ofWay n.1 := by
  obtain ⟨way, c, hdown, -, rfl⟩ := (mem_tables_iff_down? hkeyed).mp ht
  obtain ⟨d, hd, htree, -⟩ :=
    (mem_region_iff_down? (Fields.isKeyed_of_down? hkeyed hdown)).mp hn
  refine ⟨way ++ n.1, ?_, List.flatMap_append⟩
  rw [Fields.down?_append, hdown, Option.bind_some, hd, htree, fields_ofFields]

end Tree

end NestedTables
