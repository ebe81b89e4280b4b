import Mathlib.Tactic.SplitIfs
import NestedTables.Json.Reader
import NestedTables.Json.Writer

/-!
# Texts in JSON

A text that is written between quotes reads back (`Json.textBody_written`).

Every character is one step of the reader, whichever form it is written in: as itself, as a letter
behind a backslash, as one unit of sixteen bits or as two (`Json.textBody_writtenChar`). The reader
wants to see something behind the digits of a unit, so the step is stated for a rest that is not
empty; between quotes there is always the closing one.
-/

namespace NestedTables

/-! ### Hexadecimal digits -/

namespace Text

theorem hexValue?_hexDigit {n : Nat} (hn : n < 16) : hexValue? (hexDigit n) = some n := by
  have hall : ∀ n < 16, hexValue? (hexDigit n) = some n := by decide
  exact hall n hn

theorem length_hexDigits (width n : Nat) : (hexDigits width n).length = width := by
  induction width generalizing n with
  | zero => rfl
  | succ width ih => rw [hexDigits, List.length_append, ih, List.length_singleton]

theorem hexNumber?_append_singleton (cs : List Char) (c : Char) :
    hexNumber? (cs ++ [c]) = (hexNumber? cs).bind fun n => (hexValue? c).map (16 * n + ·) := by
  simp [hexNumber?, List.foldlM_append]

/-- Hexadecimal digits are read as what they were written for. -/
theorem hexNumber?_hexDigits (width : Nat) {n : Nat} (hn : n < Nat.pow 16 width) :
    hexNumber? (hexDigits width n) = some n := by
  induction width generalizing n with
  | zero =>
    obtain rfl : n = 0 := Nat.lt_one_iff.mp hn
    rfl
  | succ width ih =>
    have hdiv : n / 16 < Nat.pow 16 width :=
      Nat.div_lt_of_lt_mul (Nat.mul_comm (Nat.pow 16 width) 16 ▸ hn)
    rw [hexDigits, hexNumber?_append_singleton, ih hdiv, hexValue?_hexDigit (Nat.mod_lt n (by decide))]
    exact congrArg some (Nat.div_add_mod n 16)

end Text

namespace Json

open Text

variable {rest : List Char}

/-! ### Units of sixteen bits -/

theorem drop_hexDigits (n : Nat) (rest : List Char) : (hexDigits 4 n ++ rest).drop 4 = rest :=
  List.drop_left' (length_hexDigits 4 n)

theorem codeUnit?_hexDigits {n : Nat} (hn : n < 0x10000) (hrest : rest ≠ []) :
    codeUnit? (hexDigits 4 n ++ rest) = some n := by
  have htake : (hexDigits 4 n ++ rest).take 4 = hexDigits 4 n :=
    List.take_left' (length_hexDigits 4 n)
  rw [codeUnit?, drop_hexDigits, htake, hexNumber?_hexDigits 4 hn, if_neg]
  simpa using hrest

theorem character?_toNat (standIn : Option Char) (c : Char) :
    character? standIn c.toNat = some c := by
  rw [character?, if_pos (show c.toNat.isValidChar from c.valid), Char.ofNat_toNat]

/-- A code point is no surrogate. -/
theorem not_surrogate (c : Char) : c.toNat < 0xd800 ∨ (0xdfff < c.toNat ∧ c.toNat < 0x110000) :=
  c.valid

/-- **A character that is one unit** is read from it. -/
theorem unicodeEscape_unit {c : Char} (hc : c.toNat < 0x10000) (hrest : rest ≠ []) :
    unicodeEscape (hexDigits 4 c.toNat ++ rest) = .ok (c.toNat, rest) := by
  have hhigh : isHighSurrogate c.toNat = false := by
    rcases not_surrogate c with hlow | ⟨hlow, -⟩ <;>
      simp only [isHighSurrogate, Bool.and_eq_false_iff, decide_eq_false_iff_not] <;> omega
  rw [unicodeEscape, codeUnit?_hexDigits hc hrest]
  simp only [hhigh, Bool.false_and, drop_hexDigits]

theorem isHighSurrogate_add {n : Nat} (hn : n < 0x400) : isHighSurrogate (0xd800 + n) = true := by
  simp only [isHighSurrogate, Bool.and_eq_true, decide_eq_true_eq]
  omega

theorem isLowSurrogate_add {n : Nat} (hn : n < 0x400) : isLowSurrogate (0xdc00 + n) = true := by
  simp only [isLowSurrogate, Bool.and_eq_true, decide_eq_true_eq]
  omega

theorem joinSurrogates_add (n m : Nat) :
    joinSurrogates (0xd800 + n) (0xdc00 + m) = 0x10000 + n * 0x400 + m := by
  unfold joinSurrogates
  omega

/-- Two units are read as the code point that they join to. -/
theorem unicodeEscape_join {high low : Nat} (hhigh : isHighSurrogate high = true)
    (hlow : isLowSurrogate low = true) (hrest : rest ≠ []) :
    unicodeEscape (hexDigits 4 high ++ (unitEscape low ++ rest)) =
      .ok (joinSurrogates high low, rest) := by
  have hlts : high < 0x10000 ∧ low < 0x10000 := by
    simp only [isHighSurrogate, isLowSurrogate, Bool.and_eq_true, decide_eq_true_eq] at hhigh hlow
    omega
  have hsecond : (hexDigits 4 high ++ (unitEscape low ++ rest)).drop 10 = rest := by
    rw [← List.append_assoc]
    exact List.drop_left' (by simp [unitEscape, length_hexDigits])
  have hmore : (!rest.isEmpty) = true := by simpa using hrest
  rw [unicodeEscape, codeUnit?_hexDigits hlts.1 (by simp [unitEscape])]
  simp only [hhigh, hsecond, hmore, Bool.and_self, drop_hexDigits]
  simp only [unitEscape, List.cons_append, codeUnit?_hexDigits hlts.2 hrest, hlow, if_true,
    drop_hexDigits]

/-- **A character that is two units** is read from both. -/
theorem unicodeEscape_pair {c : Char} (hc : 0x10000 ≤ c.toNat) (hrest : rest ≠ []) :
    unicodeEscape (hexDigits 4 (0xd800 + (c.toNat - 0x10000) / 0x400) ++
      (unitEscape (0xdc00 + (c.toNat - 0x10000) % 0x400) ++ rest)) = .ok (c.toNat, rest) := by
  have hmost : c.toNat < 0x110000 := by
    rcases not_surrogate c with h | ⟨-, h⟩ <;> omega
  have hjoin : 0x10000 + (c.toNat - 0x10000) / 0x400 * 0x400 + (c.toNat - 0x10000) % 0x400 =
      c.toNat := by omega
  rw [unicodeEscape_join (isHighSurrogate_add (by omega)) (isLowSurrogate_add (by omega)) hrest,
    joinSurrogates_add, hjoin]

/-! ### Characters -/

variable {standIn : Option Char} {start : List Char}

theorem textBody_quote (start : List Char) (bound : Nat) (rest : List Char) :
    textBody standIn start (bound + 1) ('"' :: rest) = .ok ([], rest) := by
  rw [textBody.eq_def]
  exact if_pos rfl

theorem textBody_escaped (bound : Nat) {letter c : Char} (hunit : letter ≠ 'u')
    (hletter : escaped? letter = some c) (rest : List Char) :
    textBody standIn start (bound + 1) ('\\' :: letter :: rest) =
      (textBody standIn start bound rest).map fun t => (c :: t.1, t.2) := by
  have hquote : ('\\' : Char) ≠ '"' := by decide
  rw [textBody.eq_def]
  simp only [hquote, if_false, if_true, hunit, hletter]
  cases textBody standIn start bound rest <;> rfl

theorem textBody_unicodeEscape (bound : Nat) {cs : List Char} {c : Char}
    (h : unicodeEscape cs = .ok (c.toNat, rest)) :
    textBody standIn start (bound + 1) ('\\' :: 'u' :: cs) =
      (textBody standIn start bound rest).map fun t => (c :: t.1, t.2) := by
  have hquote : ('\\' : Char) ≠ '"' := by decide
  rw [textBody.eq_def]
  simp only [hquote, if_false, if_true, h, bind, Except.bind, character?_toNat]
  cases textBody standIn start bound rest <;> rfl

theorem textBody_plain (bound : Nat) {c : Char} (hquote : c ≠ '"') (hslash : c ≠ '\\')
    (hcontrol : 0x20 ≤ c.toNat) (rest : List Char) :
    textBody standIn start (bound + 1) (c :: rest) =
      (textBody standIn start bound rest).map fun t => (c :: t.1, t.2) := by
  have hlow : ¬ c.toNat ≤ 0x1f := by omega
  rw [textBody.eq_def]
  simp only [hquote, hslash, hlow, if_false]
  cases textBody standIn start bound rest <;> rfl

/-- **A written character** is one step of the reader. -/
theorem textBody_writtenChar (bound : Nat) (c : Char) (hrest : rest ≠ []) :
    textBody standIn start (bound + 1) (writtenChar c ++ rest) =
      (textBody standIn start bound rest).map fun t => (c :: t.1, t.2) := by
  unfold writtenChar
  split_ifs with hquote hslash hline hreturn htab hback hfeed hplain hunit
  · exact textBody_escaped bound (by decide) (by rw [hquote]; rfl) rest
  · exact textBody_escaped bound (by decide) (by rw [hslash]; rfl) rest
  · exact textBody_escaped bound (by decide) (by rw [hline]; rfl) rest
  · exact textBody_escaped bound (by decide) (by rw [hreturn]; rfl) rest
  · exact textBody_escaped bound (by decide) (by rw [htab]; rfl) rest
  · exact textBody_escaped bound (by decide) (by rw [hback]; rfl) rest
  · exact textBody_escaped bound (by decide) (by rw [hfeed]; rfl) rest
  · exact textBody_plain bound hquote hslash hplain.1 rest
  · exact textBody_unicodeEscape bound (unicodeEscape_unit hunit hrest)
  · simp only [List.append_assoc]
    exact textBody_unicodeEscape bound (unicodeEscape_pair (Nat.le_of_not_lt hunit) hrest)

/-- A character is written in one character at least. -/
theorem length_le_written (cs : List Char) : cs.length ≤ (cs.flatMap writtenChar).length := by
  have hpos : ∀ c, 0 < (writtenChar c).length := by
    intro c
    unfold writtenChar
    split_ifs <;> simp [unitEscape]
  induction cs with
  | nil => exact Nat.le_refl 0
  | cons c cs ih =>
    have := hpos c
    rw [List.flatMap_cons, List.length_append, List.length_cons]
    omega

/-- **A written text** reads as its characters, up to the closing quote. -/
theorem textBody_written (start : List Char) (cs rest : List Char) {bound : Nat}
    (hbound : cs.length < bound) :
    textBody standIn start bound (cs.flatMap writtenChar ++ '"' :: rest) = .ok (cs, rest) := by
  induction cs generalizing bound with
  | nil =>
    obtain ⟨bound, rfl⟩ := Nat.exists_eq_add_one_of_ne_zero (Nat.ne_of_gt hbound)
    exact textBody_quote start bound rest
  | cons c cs ih =>
    obtain ⟨bound, rfl⟩ :=
      Nat.exists_eq_add_one_of_ne_zero (Nat.ne_of_gt (Nat.zero_lt_of_lt hbound))
    rw [List.flatMap_cons, List.append_assoc, textBody_writtenChar bound c (by simp),
      ih (Nat.lt_of_succ_lt_succ hbound)]
    rfl

end Json

end NestedTables
