import Mathlib.Tactic.Ring
import NestedTables.Json.Reader
import NestedTables.Json.Writer
import NestedTables.Proofs.Decimal.ReadBack

/-!
# Numbers in JSON

A finite number reads back (`Json.atom_writtenScalar_int`, `Json.atom_writtenScalar_real`), if
nothing comes behind it that would go on with it (`Json.Ends`).

Both kinds of numbers are written in the same three parts, a `Numeral`: digits, digits behind a
point, and an exponent. What the reader makes of the parts is one statement
(`Json.number_numeral`), and what is left is to say which parts a number is written in. For a
double these depend on its size (`Json.writes_body`): the digits may get zeros in front or behind,
which make no difference (`Double.decimalBits_scale`), and the point and the exponent together say
what the exponent of its shortest decimal says.
-/

namespace NestedTables.Json

/-! ### Digits -/

/-- Digits of a number. -/
def AllDigits (cs : List Char) : Prop :=
  ∀ c ∈ cs, c.isDigit = true

/-- What comes next is no digit. -/
def StopsDigits (rest : List Char) : Prop :=
  ∀ c, rest.head? = some c → c.isDigit = false

/-- What comes next does not go on with a number. -/
def Ends (rest : List Char) : Prop :=
  ∀ c, rest.head? = some c → c.isDigit = false ∧ c ≠ '.' ∧ c ≠ 'e' ∧ c ≠ 'E'

variable {ds es rest : List Char}

theorem Ends.stopsDigits (h : Ends rest) : StopsDigits rest := fun c hc => (h c hc).1

theorem ends_cons {c : Char} (hdigit : c.isDigit = false) (hpoint : c ≠ '.') (he : c ≠ 'e')
    (hE : c ≠ 'E') (rest : List Char) : Ends (c :: rest) := by
  intro d hd
  obtain rfl : c = d := Option.some.inj hd
  exact ⟨hdigit, hpoint, he, hE⟩

theorem ends_nil : Ends [] := by
  intro c hc
  simp at hc

theorem AllDigits.append (hds : AllDigits ds) (hes : AllDigits es) : AllDigits (ds ++ es) := by
  intro c hc
  exact (List.mem_append.mp hc).elim (hds c) (hes c)

theorem allDigits_zeros (k : Nat) : AllDigits (List.replicate k '0') := by
  intro c hc
  rw [List.eq_of_mem_replicate hc]
  rfl

theorem allDigits_toDigits (n : Nat) : AllDigits (Nat.toDigits 10 n) := fun _ hc =>
  Nat.isDigit_of_mem_toDigits (by decide) (by decide) hc

theorem takeWhile_digits (hds : AllDigits ds) (hrest : StopsDigits rest) :
    (ds ++ rest).takeWhile Char.isDigit = ds := by
  rw [List.takeWhile_append_of_pos hds]
  cases rest with
  | nil => exact List.append_nil ds
  | cons c rest => rw [List.takeWhile_cons_of_neg (by simp [hrest c rfl]), List.append_nil]

/-! ### Their value -/

theorem digitsValue_eq (cs : List Char) : digitsValue cs = Nat.ofDigitChars 10 cs 0 := rfl

theorem ofDigitChars_add (cs : List Char) (n : Nat) :
    Nat.ofDigitChars 10 cs n = n * 10 ^ cs.length + digitsValue cs := by
  induction cs generalizing n with
  | nil => simp [digitsValue]
  | cons c cs ih =>
    have hstep : ∀ m, Nat.ofDigitChars 10 (c :: cs) m =
        Nat.ofDigitChars 10 cs (10 * m + (c.toNat - '0'.toNat)) := fun _ => rfl
    rw [digitsValue_eq, hstep, hstep, ih, ih (10 * 0 + _), List.length_cons, Nat.pow_succ]
    ring

theorem digitsValue_append (cs ds : List Char) :
    digitsValue (cs ++ ds) = digitsValue cs * 10 ^ ds.length + digitsValue ds := by
  rw [digitsValue_eq (cs ++ ds), Nat.ofDigitChars_append, ofDigitChars_add]
  rfl

@[simp] theorem digitsValue_toDigits (n : Nat) : digitsValue (Nat.toDigits 10 n) = n :=
  Nat.ofDigitChars_ten_toDigits

@[simp] theorem digitsValue_zeros (k : Nat) : digitsValue (List.replicate k '0') = 0 := by
  induction k with
  | zero => rfl
  | succ k ih =>
    rw [List.replicate_succ, ← List.singleton_append, digitsValue_append, ih]
    simp [digitsValue]

/-- **Zeros in front** count for nothing. -/
@[simp] theorem digitsValue_zeros_append (k : Nat) (ds : List Char) :
    digitsValue (List.replicate k '0' ++ ds) = digitsValue ds := by
  rw [digitsValue_append, digitsValue_zeros, Nat.zero_mul, Nat.zero_add]

/-- **Zeros behind** are factors of ten. -/
theorem digitsValue_append_zeros (ds : List Char) (k : Nat) :
    digitsValue (ds ++ List.replicate k '0') = digitsValue ds * 10 ^ k := by
  rw [digitsValue_append, digitsValue_zeros, List.length_replicate, Nat.add_zero]

/-- The digits of a number that is not zero do not start with a zero. -/
theorem head?_toDigits {n : Nat} (hn : n ≠ 0) : (Nat.toDigits 10 n).head? ≠ some '0' := by
  induction n using Nat.strong_induction_on with
  | _ n ih =>
    rw [Nat.toDigits_eq_if (by decide)]
    split
    · next hlt =>
      have hall : ∀ m < 10, m ≠ 0 → [m.digitChar].head? ≠ some '0' := by decide
      exact hall n hlt hn
    · rw [List.head?_append, List.head?_eq_some_head Nat.toDigits_ne_nil, Option.some_or,
        ← List.head?_eq_some_head]
      exact ih (n / 10) (by omega) (by omega)

/-! ### The parts of a number -/

/-- The parts in which a number is written, without its sign. -/
structure Numeral where
  whole : List Char
  places : List Char := []
  /-- Whether the exponent is negative, and its digits. -/
  exponent : Option (Bool × List Char) := none

namespace Numeral

/-- The digits behind the point, with the point. -/
def fraction (n : Numeral) : List Char :=
  if n.places = [] then [] else '.' :: n.places

/-- The exponent, with its letter and its sign. -/
def power (n : Numeral) : List Char :=
  match n.exponent with
  | none => []
  | some (negative, ds) => 'e' :: (if negative then '-' else '+') :: ds

def text (n : Numeral) : List Char :=
  n.whole ++ (n.fraction ++ n.power)

/-- What the exponent says. -/
def shift (n : Numeral) : Int :=
  match n.exponent with
  | none => 0
  | some (negative, ds) => if negative then -(digitsValue ds : Int) else digitsValue ds

/-- Parts that the reader takes for what they are. -/
structure WellFormed (n : Numeral) : Prop where
  whole_ne : n.whole ≠ []
  whole_digits : AllDigits n.whole
  leading : n.whole = ['0'] ∨ n.whole.head? ≠ some '0'
  places_digits : AllDigits n.places
  exponent_digits : ∀ negative ds, n.exponent = some (negative, ds) → ds ≠ [] ∧ AllDigits ds

end Numeral

variable {n : Numeral}

theorem wholeDigits_append (h : n.WellFormed) (hrest : StopsDigits rest) :
    wholeDigits (n.whole ++ rest) = n.whole := by
  rcases h.leading with hzero | hleading
  · rw [hzero]
    rfl
  · obtain ⟨c, cs, hcs⟩ := List.exists_cons_of_ne_nil h.whole_ne
    have hc : c ≠ '0' := by
      rintro rfl
      exact hleading (by rw [hcs]; rfl)
    have htake := takeWhile_digits h.whole_digits hrest
    rw [hcs, List.cons_append] at htake ⊢
    rw [wholeDigits]
    · exact htake
    · rintro tail heq
      exact hc (List.cons.inj heq).1

theorem placeDigits_fraction (h : n.WellFormed) (hstops : StopsDigits rest)
    (hpoint : rest.head? ≠ some '.') : placeDigits (n.fraction ++ rest) = n.places := by
  unfold Numeral.fraction
  split
  · next hplaces =>
    rw [List.nil_append, hplaces, placeDigits]
    rintro tail rfl
    exact hpoint rfl
  · exact takeWhile_digits h.places_digits hstops

theorem drop_fraction (n : Numeral) (rest : List Char) :
    (if n.places.isEmpty then n.fraction ++ rest
      else (n.fraction ++ rest).drop (n.places.length + 1)) = rest := by
  unfold Numeral.fraction
  cases hplaces : n.places with
  | nil => rfl
  | cons d ds =>
    simp only [List.isEmpty_cons, Bool.false_eq_true, if_false, reduceCtorEq]
    exact List.drop_left' rfl

theorem exponentPart?_none (hrest : Ends rest) : exponentPart? rest = none := by
  cases rest with
  | nil => rfl
  | cons c rest =>
    obtain ⟨-, -, he, hE⟩ := hrest c rfl
    rw [exponentPart?, if_neg (by simp [he, hE])]

/-- **An exponent** is read as what it says. -/
theorem exponentPart?_power (h : n.WellFormed) (hrest : Ends rest) :
    exponentPart? (n.power ++ rest) = n.exponent.map fun _ => (n.power.length, n.shift) := by
  cases hexponent : n.exponent with
  | none =>
    rw [Numeral.power, hexponent]
    exact exponentPart?_none hrest
  | some e =>
    obtain ⟨negative, ds⟩ := e
    obtain ⟨hne, hds⟩ := h.exponent_digits negative ds hexponent
    have htake := takeWhile_digits hds hrest.stopsDigits
    have hempty : ds.isEmpty = false := List.isEmpty_eq_false_iff.mpr hne
    simp only [Numeral.power, Numeral.shift, hexponent, Option.map_some]
    cases negative <;> simp [exponentPart?, htake, hempty] <;> omega

theorem power_append_head? (h : Ends rest) :
    StopsDigits (n.power ++ rest) ∧ (n.power ++ rest).head? ≠ some '.' := by
  unfold Numeral.power
  split
  · exact ⟨h.stopsDigits, fun hc => (h '.' hc).2.1 rfl⟩
  · refine ⟨fun c hc => ?_, by simp⟩
    obtain rfl : 'e' = c := Option.some.inj hc
    rfl

theorem fraction_append_stops (h : StopsDigits rest) : StopsDigits (n.fraction ++ rest) := by
  unfold Numeral.fraction
  split
  · exact h
  · intro c hc
    obtain rfl : '.' = c := Option.some.inj hc
    rfl

/-- A number with its sign. -/
def withSign (negative : Bool) (cs : List Char) : List Char :=
  if negative then '-' :: cs else cs

theorem head?_withSign {negative : Bool} {cs : List Char} (hcs : cs.head? ≠ some '-') :
    (withSign negative cs).head? = some '-' ↔ negative = true := by
  cases negative <;> simp [withSign, hcs]

theorem drop_withSign (negative : Bool) (cs : List Char) :
    (if negative then (withSign negative cs).drop 1 else withSign negative cs) = cs := by
  cases negative <;> rfl

theorem head?_digits (hds : AllDigits ds) (hne : ds ≠ []) (rest : List Char) :
    ∃ d tail, ds ++ rest = d :: tail ∧ d.isDigit = true := by
  obtain ⟨d, tail, rfl⟩ := List.exists_cons_of_ne_nil hne
  exact ⟨d, tail ++ rest, rfl, hds d List.mem_cons_self⟩

/-- What the reader makes of the parts of a number. -/
def Numeral.value (n : Numeral) (negative : Bool) : Value :=
  if n.places.isEmpty && n.exponent.isNone then
    .int (if negative then -(digitsValue n.whole : Int) else digitsValue n.whole)
  else .real (.ofDecimal negative (digitsValue (n.whole ++ n.places)) (n.shift - n.places.length))

/-- **The parts of a number** are read as one number, unless they are too many digits. -/
theorem number_numeral (h : n.WellFormed)
    (hlength : n.places = [] → n.exponent = none → n.whole.length ≤ Text.mostDigits)
    (negative : Bool) (hrest : Ends rest) :
    number (withSign negative (n.text ++ rest)) = .ok (n.value negative, rest) := by
  obtain ⟨hstops, hpoint⟩ := power_append_head? (n := n) hrest
  have htext : n.text ++ rest = n.whole ++ (n.fraction ++ (n.power ++ rest)) := by
    simp [Numeral.text]
  have hminus : (n.text ++ rest).head? ≠ some '-' := by
    obtain ⟨d, tail, heq, hd⟩ := head?_digits h.whole_digits h.whole_ne (n.fraction ++ (n.power ++ rest))
    rw [htext, heq]
    rintro hc
    obtain rfl : d = '-' := Option.some.inj hc
    exact absurd hd (by decide)
  have hwhole : wholeDigits (n.text ++ rest) = n.whole := by
    rw [htext]
    exact wholeDigits_append h (fraction_append_stops hstops)
  have hdrop : (n.text ++ rest).drop n.whole.length = n.fraction ++ (n.power ++ rest) := by
    rw [htext]
    exact List.drop_left' rfl
  have hempty : n.whole.isEmpty = false := List.isEmpty_eq_false_iff.mpr h.whole_ne
  rw [number]
  simp only [head?_withSign hminus, drop_withSign, hwhole, hempty, hdrop, Bool.decide_eq_true,
    placeDigits_fraction h hstops hpoint, drop_fraction, exponentPart?_power h hrest,
    Bool.false_eq_true, if_false]
  cases hexponent : n.exponent with
  | none =>
    have hpower : n.power = [] := by rw [Numeral.power, hexponent]
    have hshift : n.shift = 0 := by rw [Numeral.shift, hexponent]
    cases hplaces : n.places with
    | nil =>
      have hlong : ¬ n.whole.length > Text.mostDigits := Nat.not_lt.mpr (hlength hplaces hexponent)
      simp [Numeral.value, hexponent, hplaces, hpower, hlong]
    | cons d ds => simp [Numeral.value, hexponent, hplaces, hpower, hshift]
  | some e =>
    simp only [Option.map_some, List.drop_left, Numeral.value, hexponent, Option.isNone_some,
      Bool.and_false, Bool.false_eq_true, if_false]

/-! ### Words -/

/-- **A word** is read as its value. -/
theorem atom_word {word : String} {v : Value} (hfind : words.find? (fun w =>
      w.1.toList.isPrefixOf (word.toList ++ rest)) = some (word, v)) :
    atom (word.toList ++ rest) = .ok (v, rest) := by
  rw [atom, hfind]
  simp only
  rw [← String.length_toList, List.drop_left]

/-- A number is no word. -/
theorem atom_withSign {negative : Bool} {d : Char} (hd : d.isDigit = true) (tail : List Char) :
    atom (withSign negative (d :: tail)) = number (withSign negative (d :: tail)) := by
  have hletter : ∀ c : Char, c.isDigit = false → (c == d) = false := by
    rintro c hc
    rw [beq_eq_false_iff_ne]
    rintro rfl
    rw [hd] at hc
    exact Bool.noConfusion hc
  have hfind : (words.find? fun w => w.1.toList.isPrefixOf (withSign negative (d :: tail))) = none := by
    cases negative <;>
      simp [words, withSign, List.find?, List.isPrefixOf_cons_cons, hletter 'n' rfl, hletter 't' rfl,
        hletter 'f' rfl, hletter 'N' rfl, hletter 'I' rfl, hletter '-' rfl]
  rw [atom, hfind]

/-! ### Integers -/

theorem wellFormed_natural (n : Nat) : (⟨Nat.toDigits 10 n, [], none⟩ : Numeral).WellFormed where
  whole_ne := Nat.toDigits_ne_nil
  whole_digits := allDigits_toDigits n
  leading := by
    rcases eq_or_ne n 0 with rfl | hn
    · exact .inl (Nat.toDigits_zero 10)
    · exact .inr (head?_toDigits hn)
  places_digits := fun _ hc => absurd hc List.not_mem_nil
  exponent_digits := fun _ _ h => by simp at h

theorem length_toDigits_le_iff (n : Nat) {k : Nat} (hk : 0 < k) :
    (Nat.toDigits 10 n).length ≤ k ↔ n < Nat.pow 10 k :=
  Nat.length_toDigits_le_iff (by decide) hk

theorem toList_toString_int (n : Int) :
    (toString n).toList = withSign (decide (n < 0)) (Nat.toDigits 10 n.natAbs) := by
  cases n with
  | ofNat n =>
    simp [Int.toString_eq_repr, Int.repr, Nat.repr_eq_ofList_toDigits, withSign]
  | negSucc n =>
    simp [Int.toString_eq_repr, Int.repr, Nat.repr_eq_ofList_toDigits, withSign, Int.negSucc_lt_zero]

/-- **An integer that is not too long** is read back. -/
theorem atom_writtenScalar_int {n : Int} (hn : Text.isWritable n = true) (hrest : Ends rest) :
    atom (writtenScalar (.int n) ++ rest) = .ok (.int n, rest) := by
  have htext : writtenScalar (.int n) ++ rest = withSign (decide (n < 0))
      ((⟨Nat.toDigits 10 n.natAbs, [], none⟩ : Numeral).text ++ rest) := by
    rw [writtenScalar, toList_toString_int]
    cases decide (n < 0) <;> simp [withSign, Numeral.text, Numeral.fraction, Numeral.power]
  have hlength : (Nat.toDigits 10 n.natAbs).length ≤ Text.mostDigits :=
    (length_toDigits_le_iff n.natAbs (by decide)).mpr (of_decide_eq_true hn)
  have hvalue : (⟨Nat.toDigits 10 n.natAbs, [], none⟩ : Numeral).value (decide (n < 0)) = .int n := by
    have hsign : (if n < 0 then -(n.natAbs : Int) else n.natAbs) = n := by split <;> omega
    simp only [Numeral.value, List.isEmpty_nil, Option.isNone_none, Bool.and_self, if_true,
      digitsValue_toDigits, decide_eq_true_eq, hsign]
  have hnumber := number_numeral (wellFormed_natural n.natAbs) (fun _ _ => hlength)
    (decide (n < 0)) hrest
  obtain ⟨d, tail, heq, hd⟩ := head?_digits (allDigits_toDigits n.natAbs) Nat.toDigits_ne_nil rest
  rw [hvalue] at hnumber
  rw [htext]
  have hdigits : (⟨Nat.toDigits 10 n.natAbs, [], none⟩ : Numeral).text ++ rest = d :: tail := by
    simpa [Numeral.text, Numeral.fraction, Numeral.power] using heq
  rw [hdigits] at hnumber ⊢
  rw [atom_withSign hd, hnumber]

/-! ### Doubles -/

/-- Characters that write a decimal, not as an integer. -/
def Writes (body : List Char) (d : Decimal) : Prop :=
  ∃ n : Numeral, n.WellFormed ∧ n.text = body ∧ (n.places ≠ [] ∨ n.exponent ≠ none) ∧
    Double.decimalBits (digitsValue (n.whole ++ n.places)) (n.shift - n.places.length) =
      Double.decimalBits d.digits d.exponent

/-- **What writes a decimal** is read as the double that the decimal reads as. -/
theorem Writes.atom {body : List Char} {d : Decimal} (h : Writes body d) (negative : Bool)
    (hrest : Ends rest) :
    atom (withSign negative (body ++ rest)) =
      .ok (.real (.ofSignedDecimal negative d), rest) := by
  obtain ⟨n, hn, rfl, hreal, hbits⟩ := h
  have hint : (n.places.isEmpty && n.exponent.isNone) = false := by
    rcases hreal with hplaces | hexponent
    · simp [hplaces]
    · cases hsome : n.exponent with
      | none => exact absurd hsome hexponent
      | some e => simp
  have hvalue : n.value negative = .real (.ofSignedDecimal negative d) := by
    rw [Numeral.value, hint, if_neg Bool.false_ne_true, Double.ofSignedDecimal, Double.ofDecimal_eq,
      Double.ofDecimal_eq, hbits]
  have hlength : n.places = [] → n.exponent = none → n.whole.length ≤ Text.mostDigits :=
    fun hplaces hexponent => absurd hexponent (hreal.resolve_left (not_not_intro hplaces))
  have hnumber := number_numeral hn hlength negative hrest
  obtain ⟨c, tail, heq, hc⟩ := head?_digits hn.whole_digits hn.whole_ne (n.fraction ++ n.power ++ rest)
  have htext : n.text ++ rest = c :: tail := by
    rw [← heq, Numeral.text, List.append_assoc]
  rw [htext] at hnumber ⊢
  rw [atom_withSign hc, hnumber, hvalue]

section Shapes

variable {m : Nat} {e : Int}

/-- A number below one: zeros behind the point, and then the digits. -/
theorem writes_positional_small
    (hleading : e + (Nat.toDigits 10 m).length - 1 < 0) :
    Writes (DecimalLayout.positional (Nat.toDigits 10 m) (e + (Nat.toDigits 10 m).length - 1))
      ⟨m, e⟩ := by
  generalize hds : Nat.toDigits 10 m = ds at hleading
  have hdigits : AllDigits ds := hds ▸ allDigits_toDigits m
  have hvalue : digitsValue ds = m := hds ▸ digitsValue_toDigits m
  have hne : ds ≠ [] := hds ▸ Nat.toDigits_ne_nil
  refine ⟨⟨['0'], List.replicate (-(e + ds.length - 1) - 1).toNat '0' ++ ds, none⟩,
    ⟨by simp, fun c hc => ?_, .inl rfl, (allDigits_zeros _).append hdigits, by simp⟩, ?_, ?_, ?_⟩
  · rw [List.mem_singleton.mp hc]
    rfl
  · simp [Numeral.text, Numeral.fraction, Numeral.power, DecimalLayout.positional, hleading, hne]
  · simp [hne]
  · have hzero : digitsValue (['0'] ++ (List.replicate (-(e + ds.length - 1) - 1).toNat '0' ++ ds)) = m := by
      rw [← List.append_assoc, ← List.replicate_one, List.replicate_append_replicate,
        digitsValue_zeros_append, hvalue]
    have hshift : (0 : Int) - (List.replicate (-(e + ds.length - 1) - 1).toNat '0' ++ ds).length = e := by
      rw [List.length_append, List.length_replicate]
      omega
    simp only [Numeral.shift, hzero, hshift]

/-- A number that has its digits, and zeros behind them, up to the point. -/
theorem writes_positional_whole {leading : Int} (hleading : 0 ≤ leading)
    (hlength : (Nat.toDigits 10 m).length ≤ leading.toNat + 1)
    (hexponent : m ≠ 0 → leading = e + (Nat.toDigits 10 m).length - 1)
    (hzero : m = 0 → leading = 0) :
    Writes (DecimalLayout.positional (Nat.toDigits 10 m) leading) ⟨m, e⟩ := by
  have hvalue : digitsValue (Nat.toDigits 10 m ++
      List.replicate (leading.toNat + 1 - (Nat.toDigits 10 m).length) '0' ++ ['0']) =
      m * 10 ^ (leading.toNat + 1 - (Nat.toDigits 10 m).length + 1) := by
    rw [List.append_assoc, ← List.replicate_one, List.replicate_append_replicate,
      digitsValue_append_zeros, digitsValue_toDigits]
  refine ⟨⟨Nat.toDigits 10 m ++ List.replicate (leading.toNat + 1 - (Nat.toDigits 10 m).length) '0',
    ['0'], none⟩, ⟨by simp [Nat.toDigits_ne_nil], (allDigits_toDigits m).append (allDigits_zeros _),
      ?_, allDigits_zeros 1, by simp⟩, ?_, by simp, ?_⟩
  · rcases eq_or_ne m 0 with rfl | hm
    · exact .inl (by simp [hzero rfl])
    · refine .inr ?_
      rw [List.head?_append, List.head?_eq_some_head Nat.toDigits_ne_nil, Option.some_or,
        ← List.head?_eq_some_head]
      exact head?_toDigits hm
  · have hpositive : ¬ leading < 0 := Int.not_lt.mpr hleading
    simp [Numeral.text, Numeral.fraction, Numeral.power, DecimalLayout.positional, hpositive, hlength]
  · simp only [Numeral.shift, hvalue, List.length_singleton]
    rcases eq_or_ne m 0 with rfl | hm
    · rw [Nat.zero_mul, Double.decimalBits_zero, Double.decimalBits_zero]
    · have hshift : (0 : Int) - (1 : Nat) =
          e - (leading.toNat + 1 - (Nat.toDigits 10 m).length + 1 : Nat) := by
        have := hexponent hm
        omega
      rw [hshift, Double.decimalBits_scale]

/-- A number with digits on both sides of the point. -/
theorem writes_positional_split (hleading : 0 ≤ e + (Nat.toDigits 10 m).length - 1)
    (hlength : (e + (Nat.toDigits 10 m).length - 1).toNat + 1 < (Nat.toDigits 10 m).length) :
    Writes (DecimalLayout.positional (Nat.toDigits 10 m) (e + (Nat.toDigits 10 m).length - 1))
      ⟨m, e⟩ := by
  have hm : m ≠ 0 := by
    rintro rfl
    simp at hlength
  have hhead := head?_toDigits hm
  have hdigits := allDigits_toDigits m
  have hvalue := digitsValue_toDigits m
  generalize Nat.toDigits 10 m = ds at *
  generalize hbefore : (e + ds.length - 1).toNat + 1 = before at *
  obtain ⟨d, tail, rfl⟩ := List.exists_cons_of_ne_nil (List.ne_nil_of_length_pos (Nat.zero_lt_of_lt hlength))
  obtain ⟨before, rfl⟩ := Nat.exists_eq_add_one_of_ne_zero (show before ≠ 0 by omega)
  refine ⟨⟨(d :: tail).take (before + 1), (d :: tail).drop (before + 1), none⟩,
    ⟨by simp, fun c hc => hdigits c (List.mem_of_mem_take hc), .inr (by simpa using hhead),
      fun c hc => hdigits c (List.mem_of_mem_drop hc), by simp⟩, ?_, .inl ?_, ?_⟩
  · have hpositive : ¬ e + ((d :: tail).length : Int) - 1 < 0 := Int.not_lt.mpr hleading
    have hlong : ¬ (d :: tail).length ≤ before + 1 := Nat.not_le.mpr hlength
    have hdrop : (d :: tail).drop (before + 1) ≠ [] := by simpa using Nat.lt_of_succ_lt_succ hlength
    simp only [Numeral.text, Numeral.fraction, Numeral.power, DecimalLayout.positional, hpositive,
      hbefore, hlong, hdrop, if_false, List.append_nil]
  · simpa using Nat.lt_of_succ_lt_succ hlength
  · have hshift : (0 : Int) - ((d :: tail).drop (before + 1)).length = e := by
      rw [List.length_drop]
      omega
    simp only [Numeral.shift, List.take_append_drop, hvalue, hshift]

theorem allDigits_padded (width n : Nat) :
    AllDigits (DecimalLayout.padded width (Nat.toDigits 10 n)) :=
  (allDigits_zeros _).append (allDigits_toDigits n)

/-- A number with an exponent. -/
theorem writes_scientific (hm : m ≠ 0) :
    Writes (numbers.scientific (Nat.toDigits 10 m) (e + (Nat.toDigits 10 m).length - 1)) ⟨m, e⟩ := by
  have hhead := head?_toDigits hm
  have hdigits := allDigits_toDigits m
  have hvalue := digitsValue_toDigits m
  have hne : Nat.toDigits 10 m ≠ [] := Nat.toDigits_ne_nil
  generalize Nat.toDigits 10 m = ds at *
  generalize hleading : e + ds.length - 1 = leading
  obtain ⟨d, tail, rfl⟩ := List.exists_cons_of_ne_nil hne
  have hpadded : digitsValue (DecimalLayout.padded numbers.exponentWidth
      (Nat.toDigits 10 leading.natAbs)) = leading.natAbs := by
    rw [DecimalLayout.padded, digitsValue_zeros_append, digitsValue_toDigits]
  refine ⟨⟨[d], tail, some (decide (leading < 0),
      DecimalLayout.padded numbers.exponentWidth (Nat.toDigits 10 leading.natAbs))⟩,
    ⟨by simp, ?_, .inr (by simpa using hhead), ?_, ?_⟩, ?_, by simp, ?_⟩
  · exact fun c hc => hdigits c (by simp [List.mem_singleton.mp hc])
  · exact fun c hc => hdigits c (List.mem_cons_of_mem d hc)
  · intro negative es heq
    obtain ⟨rfl, rfl⟩ := Prod.mk.injEq .. ▸ Option.some.inj heq
    refine ⟨?_, allDigits_padded _ _⟩
    rw [DecimalLayout.padded]
    simp [Nat.toDigits_ne_nil]
  · cases tail with
    | nil => simp [Numeral.text, Numeral.fraction, Numeral.power, DecimalLayout.scientific, numbers,
        messageNumbers]
    | cons c tail =>
      simp [Numeral.text, Numeral.fraction, Numeral.power, DecimalLayout.scientific]
  · have hshift : (if leading < 0 then -(leading.natAbs : Int) else leading.natAbs) = leading := by
      split <;> omega
    have hexponent : leading - (tail.length : Int) = e := by
      simp only [List.length_cons] at hleading
      omega
    simp only [Numeral.shift, hpadded, decide_eq_true_eq, hshift, List.singleton_append, hvalue,
      hexponent]

end Shapes

/-- The exponent of the first digit. -/
def leading (d : Decimal) : Int :=
  if d.digits = 0 then 0 else d.exponent + (Nat.toDigits 10 d.digits).length - 1

/-- A decimal written out. -/
def body (d : Decimal) : List Char :=
  if numbers.leastPositional ≤ leading d ∧ leading d < numbers.leastScientific then
    DecimalLayout.positional (Nat.toDigits 10 d.digits) (leading d)
  else numbers.scientific (Nat.toDigits 10 d.digits) (leading d)

theorem render_eq {x : Double} (hfinite : x.isFinite = true) :
    numbers.render x = withSign x.negative (body x.shortest) := by
  have hbits : x.unsignedBits < Double.infinityBits := of_decide_eq_true hfinite
  have hnan : x.isNaN = false := decide_eq_false (Nat.not_lt.mpr (Nat.le_of_lt hbits))
  have hinfinite : x.isInfinite = false := decide_eq_false (Nat.ne_of_lt hbits)
  simp only [DecimalLayout.render, hnan, hinfinite, Bool.false_eq_true, if_false]
  rfl

theorem writes_body (d : Decimal) : Writes (body d) d := by
  obtain ⟨m, e⟩ := d
  unfold body
  rcases eq_or_ne m 0 with rfl | hm
  · have hpositional : numbers.leastPositional ≤ 0 ∧ 0 < numbers.leastScientific := by decide
    rw [leading, if_pos rfl, if_pos hpositional]
    exact writes_positional_whole (Int.le_refl 0) (by simp) (absurd rfl) fun _ => rfl
  · rw [leading, if_neg hm]
    split
    · rcases Int.lt_or_le (e + (Nat.toDigits 10 m).length - 1) 0 with hsmall | hlarge
      · exact writes_positional_small hsmall
      · rcases Nat.lt_or_ge ((e + (Nat.toDigits 10 m).length - 1).toNat + 1)
          (Nat.toDigits 10 m).length with hsplit | hwhole
        · exact writes_positional_split hlarge hsplit
        · exact writes_positional_whole hlarge hwhole (fun _ => rfl) fun h => absurd h hm
    · exact writes_scientific hm

/-- **A finite double** is read back. -/
theorem atom_writtenScalar_real {x : Double} (hfinite : x.isFinite = true) (hrest : Ends rest) :
    atom (writtenScalar (.real x) ++ rest) = .ok (.real x, rest) := by
  have hsign : withSign x.negative (body x.shortest) ++ rest =
      withSign x.negative (body x.shortest ++ rest) := by
    cases x.negative <;> rfl
  rw [writtenScalar, render_eq hfinite, hsign, (writes_body x.shortest).atom x.negative hrest,
    Double.ofSignedDecimal_shortest hfinite]

end NestedTables.Json
