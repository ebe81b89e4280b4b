import NestedTables.CommandLine.Option
import NestedTables.Proofs.Document.Exact
import NestedTables.Proofs.Json.Number
import NestedTables.Proofs.Json.Text

/-!
# What is written in JSON reads back

An exact document is read back from what is written of it (`Json.readChars_written`). So what the
program prints is read back (`Json.read_lines_writeIndented`).

The induction is on the document, for every spacing and for everything that may come behind
(`Json.value_written`). It needs to know how what is written starts, since blanks are skipped before
each member and a bracket there would close a list (`Json.Starts`), and how it goes on, since a
number ends where something else begins (`Json.Ends`). The reader takes at most two steps for a
character, so twice the number of characters is bound enough.
-/

namespace NestedTables.Json

variable {standIn : Option Char} {rest : List Char}

/-! ### Blanks -/

/-- Blanks, and nothing else. -/
def AllBlank (bs : List Char) : Prop :=
  ∀ c ∈ bs, isBlank c = true

theorem allBlank_nil : AllBlank [] := fun _ h => absurd h List.not_mem_nil

theorem Spacing.allBlank_brk (spacing : Spacing) : AllBlank spacing.brk := by
  cases spacing with
  | line => exact allBlank_nil
  | indented depth =>
    intro c hc
    rcases List.mem_cons.mp hc with rfl | hmem
    · rfl
    · rw [List.eq_of_mem_replicate hmem]
      rfl

/-- Between two members there is a comma, and at least one blank. -/
theorem Spacing.exists_comma (spacing : Spacing) :
    ∃ b bs, spacing.comma = ',' :: b :: bs ∧ AllBlank (b :: bs) := by
  cases spacing with
  | line => exact ⟨' ', [], rfl, by simp [AllBlank, isBlank]⟩
  | indented depth =>
    exact ⟨'\n', List.replicate (2 * depth) ' ', rfl, (Spacing.indented depth).allBlank_brk⟩

theorem skipBlanks_append {bs : List Char} (hbs : AllBlank bs) (cs : List Char) :
    skipBlanks (bs ++ cs) = skipBlanks cs :=
  List.dropWhile_append_of_pos hbs

theorem skipBlanks_cons {c : Char} (hc : isBlank c = false) (cs : List Char) :
    skipBlanks (c :: cs) = c :: cs :=
  List.dropWhile_cons_of_neg (by simp [hc])

theorem ends_append {bs : List Char} (hbs : AllBlank bs) (hrest : Ends rest) :
    Ends (bs ++ rest) := by
  cases bs with
  | nil => exact hrest
  | cons b bs =>
    have hb : isBlank b = true := hbs b List.mem_cons_self
    simp only [isBlank, Bool.or_eq_true, decide_eq_true_eq] at hb
    rcases hb with ((rfl | rfl) | rfl) | rfl <;>
      exact ends_cons (by decide) (by decide) (by decide) (by decide) _

/-! ### How what is written starts -/

/-- The characters with which a written document can start. -/
def isFirst (c : Char) : Bool :=
  c.isDigit || c = '-' || c = 'n' || c = 't' || c = 'f' || c = '"' || c = '[' || c = '\x7b'

def Starts (cs : List Char) : Prop :=
  ∃ c tail, cs = c :: tail ∧ isFirst c = true

theorem isFirst_of_isDigit {c : Char} (h : c.isDigit = true) : isFirst c = true := by
  simp [isFirst, h]

/-- No first character is a blank, a closing bracket or a mark. -/
theorem ne_of_isFirst {c : Char} (h : isFirst c = true) :
    isBlank c = false ∧ c ≠ ']' ∧ c ≠ '\ufeff' := by
  have hne : ∀ d : Char, isFirst d = false → c ≠ d := by
    rintro d hd rfl
    rw [h] at hd
    exact Bool.noConfusion hd
  refine ⟨?_, hne _ (by decide), hne _ (by decide)⟩
  simp [isBlank, hne ' ' (by decide), hne '\t' (by decide), hne '\n' (by decide),
    hne '\r' (by decide)]

theorem Starts.append {cs : List Char} (h : Starts cs) (rest : List Char) : Starts (cs ++ rest) := by
  obtain ⟨c, tail, rfl, hc⟩ := h
  exact ⟨c, tail ++ rest, rfl, hc⟩

theorem Starts.skipBlanks {cs : List Char} (h : Starts cs) : skipBlanks cs = cs := by
  obtain ⟨c, tail, rfl, hc⟩ := h
  exact skipBlanks_cons (ne_of_isFirst hc).1 tail

/-- What is written of a scalar that is no text starts as an atom does. -/
theorem exists_writtenScalar {s : Scalar} (hs : s.isExact = true) (htext : s.isText = false) :
    ∃ c tail, writtenScalar s = c :: tail ∧ isFirst c = true ∧ c ≠ '"' ∧ c.toNat ≠ 0x7b ∧
      c ≠ '[' := by
  have hatom : ∀ c : Char, c.isDigit = true ∨ c = '-' ∨ c = 'n' ∨ c = 't' ∨ c = 'f' →
      isFirst c = true ∧ c ≠ '"' ∧ c.toNat ≠ 0x7b ∧ c ≠ '[' := by
    rintro c (hdigit | rfl | rfl | rfl | rfl)
    · refine ⟨isFirst_of_isDigit hdigit, ?_, ?_, ?_⟩
      · rintro rfl
        exact absurd hdigit (by decide)
      · intro heq
        have hle := (Char.isDigit_iff_toNat.mp hdigit).2
        rw [heq] at hle
        exact absurd hle (by decide)
      · rintro rfl
        exact absurd hdigit (by decide)
    all_goals decide
  suffices h : ∃ c tail, writtenScalar s = c :: tail ∧
      (c.isDigit = true ∨ c = '-' ∨ c = 'n' ∨ c = 't' ∨ c = 'f') by
    obtain ⟨c, tail, heq, hc⟩ := h
    exact ⟨c, tail, heq, hatom c hc⟩
  have hsigned : ∀ (negative : Bool) {cs : List Char}, (∃ d tail, cs = d :: tail ∧ d.isDigit = true) →
      ∃ c tail, withSign negative cs = c :: tail ∧
        (c.isDigit = true ∨ c = '-' ∨ c = 'n' ∨ c = 't' ∨ c = 'f') := by
    rintro (_ | _) _ ⟨d, tail, rfl, hd⟩
    · exact ⟨d, tail, rfl, .inl hd⟩
    · exact ⟨'-', d :: tail, rfl, .inr (.inl rfl)⟩
  cases s with
  | null => exact ⟨'n', _, rfl, by decide⟩
  | bool b => cases b <;> exact ⟨_, _, rfl, by decide⟩
  | int n =>
    rw [writtenScalar, toList_toString_int]
    refine hsigned _ ?_
    simpa using head?_digits (allDigits_toDigits n.natAbs) Nat.toDigits_ne_nil []
  | real x =>
    rw [writtenScalar, render_eq (show x.isFinite = true from hs)]
    obtain ⟨n, hn, htext, -⟩ := writes_body x.shortest
    refine hsigned _ ?_
    rw [← htext, Numeral.text]
    exact head?_digits hn.whole_digits hn.whole_ne _
  | text => exact Bool.noConfusion htext
  | date | moment | bytes => exact Bool.noConfusion hs

theorem starts_written (spacing : Spacing) {v : Value} (hv : v.isExact = true) :
    Starts (written spacing v) := by
  cases v with
  | scalar s =>
    rw [written]
    cases htext : s.isText with
    | true =>
      obtain ⟨t, rfl⟩ := Scalar.isText_iff.mp htext
      exact ⟨'"', _, rfl, by decide⟩
    | false =>
      obtain ⟨c, tail, heq, hc, -⟩ := exists_writtenScalar hv htext
      exact ⟨c, tail, heq, hc⟩
  | list vs =>
    rw [written, Spacing.enclosed]
    split <;> exact ⟨'[', _, rfl, by decide⟩
  | map es =>
    rw [written, Spacing.enclosed]
    split <;> exact ⟨'\x7b', _, rfl, by decide⟩
  | set | pair => exact Bool.noConfusion hv

/-! ### One step of the reader -/

theorem value_atom (bound : Nat) {c : Char} (hquote : c ≠ '"') (hbrace : c.toNat ≠ 0x7b)
    (hbracket : c ≠ '[') (rest : List Char) :
    value standIn (bound + 1) (c :: rest) = atom (c :: rest) := by
  rw [value.eq_def]
  simp only [hquote, hbrace, hbracket, if_false]

theorem value_quote {bound : Nat} {cs key : List Char}
    (h : textBody standIn ('"' :: cs) bound cs = .ok (key, rest)) :
    value standIn (bound + 1) ('"' :: cs) = .ok (.text (String.ofList key), rest) := by
  rw [value.eq_def]
  simp only [if_true, h]
  rfl

theorem value_list_nil (bound : Nat) (rest : List Char) :
    value standIn (bound + 1) ('[' :: ']' :: rest) = .ok (.list [], rest) := by
  rw [value.eq_def]
  rfl

theorem value_list {bound : Nat} {cs : List Char} {vs : List Value} (hstarts : Starts (skipBlanks cs))
    (h : items standIn bound (skipBlanks cs) = .ok (vs, rest)) :
    value standIn (bound + 1) ('[' :: cs) = .ok (.list vs, rest) := by
  obtain ⟨c, tail, heq, hc⟩ := hstarts
  have hquote : ('[' : Char) ≠ '"' := by decide
  have hbrace : ('[' : Char).toNat ≠ 0x7b := by decide
  rw [heq] at h
  rw [value.eq_def]
  simp only [hquote, hbrace, if_false, if_true, heq]
  split
  · next hclose => exact absurd (List.cons.inj hclose).1 (ne_of_isFirst hc).2.1
  · rw [h]
    rfl

theorem value_map_nil (bound : Nat) (rest : List Char) :
    value standIn (bound + 1) ('\x7b' :: '\x7d' :: rest) = .ok (.map [], rest) := by
  rw [value.eq_def]
  rfl

theorem value_map {bound : Nat} {cs tail : List Char} {es : List (Scalar × Value)}
    (hquote : skipBlanks cs = '"' :: tail) (h : members standIn bound ('"' :: tail) = .ok (es, rest)) :
    value standIn (bound + 1) ('\x7b' :: cs) = .ok (.map (Entries.ofPairs es), rest) := by
  have hfirst : ('\x7b' : Char) ≠ '"' := by decide
  have hbrace : ('\x7b' : Char).toNat = 0x7b := by decide
  have hclose : ('"' : Char).toNat ≠ 0x7d := by decide
  rw [value.eq_def]
  simp only [hfirst, hbrace, hclose, if_false, if_true, hquote, h]
  rfl

theorem items_last {bound : Nat} {cs more : List Char} {v : Value}
    (hvalue : value standIn bound cs = .ok (v, more)) (hclose : skipBlanks more = ']' :: rest) :
    items standIn (bound + 1) cs = .ok ([v], rest) := by
  rw [items.eq_def]
  simp only [hvalue, bind, Except.bind, hclose]
  rfl

theorem items_more {bound : Nat} {cs more tail : List Char} {v : Value} {vs : List Value}
    (hvalue : value standIn bound cs = .ok (v, more)) (hcomma : skipBlanks more = ',' :: tail)
    (hitems : items standIn bound (skipBlanks tail) = .ok (vs, rest)) :
    items standIn (bound + 1) cs = .ok (v :: vs, rest) := by
  rw [items.eq_def]
  simp only [hvalue, bind, Except.bind, hcomma, hitems]
  rfl

section Members

variable {bound : Nat} {cs key afterKey afterColon more tail : List Char} {v : Value}
  (hkey : textBody standIn ('"' :: cs) bound cs = .ok (key, afterKey))
  (hcolon : skipBlanks afterKey = ':' :: afterColon)
  (hvalue : value standIn bound (skipBlanks afterColon) = .ok (v, more))
include hkey hcolon hvalue

theorem members_last (hclose : skipBlanks more = '\x7d' :: rest) :
    members standIn (bound + 1) ('"' :: cs) = .ok ([(.text (String.ofList key), v)], rest) := by
  rw [members.eq_def]
  simp only [hkey, bind, Except.bind, hcolon, hvalue, hclose]
  rfl

theorem members_more {es : List (Scalar × Value)} (hcomma : skipBlanks more = ',' :: tail)
    (hmembers : members standIn bound (skipBlanks tail) = .ok (es, rest)) :
    members standIn (bound + 1) ('"' :: cs) = .ok ((.text (String.ofList key), v) :: es, rest) := by
  rw [members.eq_def]
  simp only [hkey, bind, Except.bind, hcolon, hvalue, hcomma, hmembers]
  rfl

end Members

/-! ### The whole document -/

/-- A text, from its opening quote to its closing one. -/
theorem textBody_writtenText (s : String) (rest : List Char) (bound : Nat)
    (hbound : (writtenText s).length ≤ bound) :
    ∃ cs, writtenText s ++ rest = '"' :: cs ∧
      textBody standIn ('"' :: cs) bound cs = .ok (s.toList, rest) := by
  have hlength := length_le_written s.toList
  refine ⟨s.toList.flatMap writtenChar ++ '"' :: rest, by simp [writtenText], ?_⟩
  refine textBody_written _ s.toList rest ?_
  simp only [writtenText, List.length_cons, List.length_append] at hbound
  omega

theorem starts_items (spacing : Spacing) {v : Value} {vs : List Value}
    (hv : Value.itemsTreeOf Scalar.isExact (v :: vs) = true) :
    Starts (spacing.comma.intercalate (writtenItems spacing (v :: vs))) := by
  have hstarts := starts_written spacing (Bool.and_eq_true_iff.mp hv).1
  cases vs with
  | nil =>
    rw [writtenItems, writtenItems, List.intercalate_singleton]
    exact hstarts
  | cons w vs =>
    rw [writtenItems, writtenItems, List.intercalate_cons_cons, List.append_assoc]
    exact hstarts.append _

/-- There is one blank between a colon and the value. -/
theorem skipBlanks_space_written (spacing : Spacing) {v : Value} (hv : v.isExact = true)
    (rest : List Char) :
    skipBlanks (' ' :: (written spacing v ++ rest)) = written spacing v ++ rest :=
  ((starts_written spacing hv).append rest).skipBlanks

/-- A scalar is read off the front of a text that starts with it. -/
theorem value_writtenScalar {s : Scalar} (spacing : Spacing) (bound : Nat)
    (hv : (Value.scalar s).isExact = true) (hrest : Ends rest)
    (hbound : 2 * (written spacing (.scalar s)).length ≤ bound) :
    value standIn bound (written spacing (.scalar s) ++ rest) = .ok (.scalar s, rest) := by
  have hpos : 0 < (written spacing (.scalar s)).length := by
    obtain ⟨c, tail, heq, -⟩ := starts_written spacing hv
    rw [heq]
    exact Nat.zero_lt_succ _
  obtain ⟨bound, rfl⟩ := Nat.exists_eq_add_one_of_ne_zero (show bound ≠ 0 by omega)
  rw [written] at hbound hpos ⊢
  cases htext : s.isText with
  | true =>
    obtain ⟨t, rfl⟩ := Scalar.isText_iff.mp htext
    change 2 * (writtenText t).length ≤ bound + 1 at hbound
    change 0 < (writtenText t).length at hpos
    obtain ⟨cs, heq, hread⟩ := textBody_writtenText t rest bound (by omega)
    change value standIn (bound + 1) (writtenText t ++ rest) = _
    rw [heq, value_quote hread, String.ofList_toList]
  | false =>
    obtain ⟨c, tail, heq, -, hquote, hbrace, hbracket⟩ := exists_writtenScalar hv htext
    have hatom : atom (writtenScalar s ++ rest) = .ok (.scalar s, rest) := by
      cases s with
      | null => exact atom_word rfl
      | bool b => cases b <;> exact atom_word rfl
      | int n => exact atom_writtenScalar_int (Scalar.isExact_int n ▸ hv) hrest
      | real x => exact atom_writtenScalar_real hv hrest
      | text => exact Bool.noConfusion htext
      | date | moment | bytes => exact Bool.noConfusion hv
    rw [heq, List.cons_append] at hatom ⊢
    rw [value_atom bound hquote hbrace hbracket, hatom]

mutual

/-- **An exact document** is read off the front of a text that starts with it. -/
theorem value_written : ∀ {v : Value} (spacing : Spacing) (bound : Nat) (rest : List Char),
    v.isExact = true → Ends rest → 2 * (written spacing v).length ≤ bound →
    value standIn bound (written spacing v ++ rest) = .ok (v, rest)
  | .scalar _, spacing, bound, _, hv, hrest, hbound =>
    value_writtenScalar spacing bound hv hrest hbound
  | .list [], spacing, bound, rest, _, _, hbound => by
    obtain ⟨bound, rfl⟩ := Nat.exists_eq_add_one_of_ne_zero (show bound ≠ 0 by
      simp [written, Spacing.enclosed, writtenItems] at hbound
      omega)
    exact value_list_nil bound rest
  | .list (v :: vs), spacing, bound, rest, hv, _, hbound => by
    have hwritten : written spacing (.list (v :: vs)) = '[' :: (spacing.inner.brk ++
        (spacing.inner.comma.intercalate (writtenItems spacing.inner (v :: vs)) ++
          (spacing.brk ++ [']']))) := by
      simp [written, Spacing.enclosed, writtenItems]
    rw [hwritten] at hbound ⊢
    simp only [List.length_cons, List.length_append] at hbound
    obtain ⟨bound, rfl⟩ := Nat.exists_eq_add_one_of_ne_zero (show bound ≠ 0 by omega)
    have hitems := items_written spacing.inner bound spacing.brk rest (by simp) hv
      spacing.allBlank_brk (by omega)
    have hstarts := (starts_items spacing.inner hv).append (spacing.brk ++ ']' :: rest)
    have hskip := (skipBlanks_append spacing.inner.allBlank_brk _).trans hstarts.skipBlanks
    simp only [List.cons_append, List.append_assoc, List.nil_append]
    exact value_list (by rwa [hskip]) (by rwa [hskip])
  | .map [], spacing, bound, rest, _, _, hbound => by
    obtain ⟨bound, rfl⟩ := Nat.exists_eq_add_one_of_ne_zero (show bound ≠ 0 by
      simp [written, Spacing.enclosed, writtenEntries] at hbound
      omega)
    exact value_map_nil bound rest
  | .map (e :: es), spacing, bound, rest, hv, _, hbound => by
    have hwritten : written spacing (.map (e :: es)) = '\x7b' :: (spacing.inner.brk ++
        (spacing.inner.comma.intercalate (writtenEntries spacing.inner (e :: es)) ++
          (spacing.brk ++ ['\x7d']))) := by
      simp [written, Spacing.enclosed, writtenEntries]
    rw [Value.isExact, Value.isTreeOf, Bool.and_eq_true, decide_eq_true_eq] at hv
    rw [hwritten] at hbound ⊢
    simp only [List.length_cons, List.length_append] at hbound
    obtain ⟨bound, rfl⟩ := Nat.exists_eq_add_one_of_ne_zero (show bound ≠ 0 by omega)
    obtain ⟨cs, hcs, hmembers⟩ := members_written spacing.inner bound spacing.brk rest (by simp)
      hv.2 spacing.allBlank_brk (by omega)
    have hskip : skipBlanks (spacing.inner.brk ++ ('"' :: cs)) = '"' :: cs :=
      skipBlanks_append spacing.inner.allBlank_brk _
    simp only [List.cons_append, List.append_assoc, List.nil_append]
    rw [hcs, value_map hskip hmembers, Entries.ofPairs_eq_self hv.1]
  | .set _, _, _, _, hv, _, _ | .pair _ _, _, _, _, hv, _, _ => Bool.noConfusion hv

/-- The members of a list, one after the other. -/
theorem items_written : ∀ {vs : List Value} (spacing : Spacing) (bound : Nat)
    (bs rest : List Char), vs ≠ [] → Value.itemsTreeOf Scalar.isExact vs = true → AllBlank bs →
    2 * (spacing.comma.intercalate (writtenItems spacing vs)).length + 1 ≤ bound →
    items standIn bound (spacing.comma.intercalate (writtenItems spacing vs) ++ (bs ++ ']' :: rest)) =
      .ok (vs, rest)
  | [], _, _, _, _, hne, _, _, _ => absurd rfl hne
  | [v], spacing, bound, bs, rest, _, hv, hbs, hbound => by
    have hv' : v.isExact = true := (Bool.and_eq_true_iff.mp hv).1
    rw [writtenItems, writtenItems, List.intercalate_singleton] at hbound ⊢
    obtain ⟨bound, rfl⟩ := Nat.exists_eq_add_one_of_ne_zero (show bound ≠ 0 by omega)
    have hends : Ends (bs ++ ']' :: rest) := ends_append hbs
      (ends_cons (by decide) (by decide) (by decide) (by decide) rest)
    refine items_last (value_written spacing bound _ hv' hends (by omega)) ?_
    exact (skipBlanks_append hbs _).trans (skipBlanks_cons rfl rest)
  | v :: w :: vs, spacing, bound, bs, rest, _, hv, hbs, hbound => by
    obtain ⟨hv', hvs⟩ := Bool.and_eq_true_iff.mp hv
    obtain ⟨b, blanks, hcomma, hblanks⟩ := spacing.exists_comma
    have hwritten : spacing.comma.intercalate (writtenItems spacing (v :: w :: vs)) =
        written spacing v ++ (',' :: (b :: blanks ++
          spacing.comma.intercalate (writtenItems spacing (w :: vs)))) := by
      simp [writtenItems, List.intercalate_cons_cons, hcomma]
    rw [hwritten] at hbound ⊢
    simp only [List.length_cons, List.length_append] at hbound
    obtain ⟨bound, rfl⟩ := Nat.exists_eq_add_one_of_ne_zero (show bound ≠ 0 by omega)
    have hitems := items_written spacing bound bs rest (by simp) hvs hbs (by omega)
    have hstarts := (starts_items spacing hvs).append (bs ++ ']' :: rest)
    have hskip := (skipBlanks_append hblanks _).trans hstarts.skipBlanks
    simp only [List.cons_append, List.append_assoc]
    refine items_more (value_written spacing bound _ hv' ?_ (by omega)) (skipBlanks_cons rfl _) ?_
    · exact ends_cons (by decide) (by decide) (by decide) (by decide) _
    · exact (congrArg (items standIn bound) hskip).trans hitems

/-- The properties of an object, one after the other. -/
theorem members_written : ∀ {es : List (Scalar × Value)} (spacing : Spacing) (bound : Nat)
    (bs rest : List Char), es ≠ [] → Value.entriesTreeOf Scalar.isExact es = true → AllBlank bs →
    2 * (spacing.comma.intercalate (writtenEntries spacing es)).length + 1 ≤ bound →
    ∃ cs, spacing.comma.intercalate (writtenEntries spacing es) ++ (bs ++ '\x7d' :: rest) =
        '"' :: cs ∧
      members standIn bound ('"' :: cs) = .ok (es, rest)
  | [], _, _, _, _, hne, _, _, _ => absurd rfl hne
  | [(k, v)], spacing, bound, bs, rest, _, hv, hbs, hbound => by
    simp only [Value.entriesTreeOf, Bool.and_eq_true] at hv
    obtain ⟨key, rfl⟩ := Scalar.isText_iff.mp hv.1.1
    have hplain : (Scalar.text key).plain = key := rfl
    rw [writtenEntries, writtenEntries, List.intercalate_singleton, hplain] at hbound ⊢
    simp only [List.length_cons, List.length_append] at hbound
    obtain ⟨bound, rfl⟩ := Nat.exists_eq_add_one_of_ne_zero (show bound ≠ 0 by omega)
    have hends : Ends (bs ++ '\x7d' :: rest) := ends_append hbs
      (ends_cons (by decide) (by decide) (by decide) (by decide) rest)
    have hvalue := value_written spacing bound _ hv.1.2 hends (by omega)
    obtain ⟨cs, hcs, hkey⟩ := textBody_writtenText key
      (':' :: ' ' :: (written spacing v ++ (bs ++ '\x7d' :: rest))) bound (by omega)
    refine ⟨cs, by simpa using hcs, ?_⟩
    have hlast := members_last hkey (skipBlanks_cons rfl _)
      ((congrArg (value standIn bound) (skipBlanks_space_written spacing hv.1.2 _)).trans hvalue)
      ((skipBlanks_append hbs _).trans (skipBlanks_cons rfl rest))
    rwa [String.ofList_toList] at hlast
  | (k, v) :: e :: es, spacing, bound, bs, rest, _, hv, hbs, hbound => by
    rw [Value.entriesTreeOf, Bool.and_eq_true, Bool.and_eq_true] at hv
    obtain ⟨key, rfl⟩ := Scalar.isText_iff.mp hv.1.1
    obtain ⟨b, blanks, hcomma, hblanks⟩ := spacing.exists_comma
    have hwritten : spacing.comma.intercalate (writtenEntries spacing ((.text key, v) :: e :: es)) =
        writtenText key ++ (':' :: ' ' :: (written spacing v ++ (',' :: (b :: blanks ++
          spacing.comma.intercalate (writtenEntries spacing (e :: es)))))) := by
      simp [writtenEntries, List.intercalate_cons_cons, hcomma, Scalar.plain]
    rw [hwritten] at hbound ⊢
    simp only [List.length_cons, List.length_append] at hbound
    obtain ⟨bound, rfl⟩ := Nat.exists_eq_add_one_of_ne_zero (show bound ≠ 0 by omega)
    obtain ⟨more, hmore, hmembers⟩ := members_written spacing bound bs rest (by simp) hv.2
      hbs (by omega)
    have hends : Ends (',' :: (b :: blanks ++ '"' :: more)) :=
      ends_cons (by decide) (by decide) (by decide) (by decide) _
    have hvalue := value_written spacing bound _ hv.1.2 hends (by omega)
    obtain ⟨cs, hcs, hkey⟩ := textBody_writtenText key
      (':' :: ' ' :: (written spacing v ++ (',' :: (b :: blanks ++ '"' :: more)))) bound
      (by omega)
    refine ⟨cs, by simpa [hmore] using hcs, ?_⟩
    have hall := members_more hkey (skipBlanks_cons rfl _)
      ((congrArg (value standIn bound) (skipBlanks_space_written spacing hv.1.2 _)).trans hvalue)
      (skipBlanks_cons rfl _)
      ((congrArg (members standIn bound) (skipBlanks_append hblanks _)).trans hmembers)
    rwa [String.ofList_toList] at hall

end

theorem readWith_written (spacing : Spacing) {v : Value} (hv : v.isExact = true) {bs : List Char}
    (hbs : AllBlank bs) : readWith standIn (written spacing v ++ bs) = .ok v := by
  have hstarts := (starts_written spacing hv).append bs
  have hmark : (written spacing v ++ bs).head? ≠ some '\ufeff' := by
    obtain ⟨c, tail, heq, hc⟩ := hstarts
    rw [heq]
    intro hhead
    exact (ne_of_isFirst hc).2.2 (Option.some.inj hhead)
  have hends : Ends bs := List.append_nil bs ▸ ends_append hbs ends_nil
  have hskip : skipBlanks bs = [] := List.append_nil bs ▸ skipBlanks_append hbs []
  have hvalue : value standIn (2 * (written spacing v ++ bs).length + 2) (written spacing v ++ bs) =
      .ok (v, bs) := value_written spacing _ bs hv hends (by rw [List.length_append]; omega)
  rw [readWith, if_neg hmark, hstarts.skipBlanks, hvalue]
  simp only [hskip]

/-- **What is written of an exact document**, with blanks behind, is read as the document. -/
theorem readChars_written (spacing : Spacing) {v : Value} (hv : v.isExact = true) {bs : List Char}
    (hbs : AllBlank bs) : readChars (written spacing v ++ bs) = .ok v := by
  rw [readChars, readWith_written spacing hv hbs]
  exact readWith_written spacing hv hbs

/-- **A document that is printed** is read back. -/
theorem read_lines_writeIndented {v : Value} (hv : v.isExact = true) :
    read (CommandLine.lines [writeIndented v]) = .ok v := by
  have hline : AllBlank ['\n'] := by simp [AllBlank, isBlank]
  have htext : (CommandLine.lines [writeIndented v]).toList = written (.indented 0) v ++ ['\n'] := by
    simp [CommandLine.lines, writeIndented]
  rw [read, htext, readChars_written (.indented 0) hv hline]

end NestedTables.Json
