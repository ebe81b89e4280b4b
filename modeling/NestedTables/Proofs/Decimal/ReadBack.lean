import Mathlib.Algebra.Order.Ring.Nat
import NestedTables.Decimal.Shortest

/-!
# The shortest decimal reads back

A finite double is written as a decimal that reads as the same double (`Double.ofSignedDecimal_shortest`).

The sign goes along unchanged, so it is enough to look at the bits without it
(`Double.decimalBits`). Two facts carry the rest. What a decimal reads as depends on the number and
not on how it is written: a factor of ten more in the digits and one less in the exponent make no
difference, neither within the limits on the exponent nor past them (`Double.decimalBits_scale`).
And the exact value of a double, which is the last of the candidates, reads back
(`Double.decimalBits_exactDecimal`): the quotient that is rounded has no remainder. So some
candidate reads back, and taking the zeros off its end changes nothing.
-/

namespace NestedTables.Double

/-! ### Without the sign -/

/-- The bits, but for the sign, of the double nearest to a quotient. -/
def ratioBits (num den : Nat) : Nat :=
  let q := (num * Nat.pow 2 1074 / den).log2 - 52
  let m := roundDiv (num * Nat.pow 2 1074) (den * Nat.pow 2 q)
  min infinityBits (if m < Nat.pow 2 52 then m else q * Nat.pow 2 52 + m)

theorem ofRatio_eq (negative : Bool) (num den : Nat) :
    ofRatio negative num den = ofSign negative (ratioBits num den) := rfl

/-- Those of the quotient that `digits * 10 ^ exponent` is. -/
def decimalRatio (digits : Nat) (exponent : Int) : Nat :=
  if exponent < 0 then ratioBits digits (Nat.pow 10 (-exponent).toNat)
  else ratioBits (digits * Nat.pow 10 exponent.toNat) 1

/-- The bits, but for the sign, of the double that a decimal reads as. -/
def decimalBits (digits : Nat) (exponent : Int) : Nat :=
  if digits = 0 then 0
  else if exponent + digitCount digits > 310 then infinityBits
  else if exponent + digitCount digits < -330 then 0
  else decimalRatio digits exponent

theorem decimalBits_zero (exponent : Int) : decimalBits 0 exponent = 0 :=
  if_pos rfl

theorem decimalBits_of_pos {digits : Nat} (h : 0 < digits) (exponent : Int) :
    decimalBits digits exponent =
      if exponent + digitCount digits > 310 then infinityBits
      else if exponent + digitCount digits < -330 then 0
      else decimalRatio digits exponent := by
  rw [decimalBits, if_neg (Nat.pos_iff_ne_zero.mp h)]

theorem ofDecimal_eq (negative : Bool) (digits : Nat) (exponent : Int) :
    ofDecimal negative digits exponent = ofSign negative (decimalBits digits exponent) := by
  unfold ofDecimal decimalBits decimalRatio
  simp only [ofRatio_eq]
  split_ifs <;> rfl

theorem decimalBits_le (digits : Nat) (exponent : Int) :
    decimalBits digits exponent ≤ infinityBits := by
  unfold decimalBits
  split_ifs
  · exact Nat.zero_le _
  · exact Nat.le_refl _
  · exact Nat.zero_le _
  · unfold decimalRatio
    split <;> exact Nat.min_le_left _ _

/-- The sign and the other bits make up a double. -/
theorem ofSign_negative (x : Double) : ofSign x.negative x.unsignedBits = x := by
  have hlt : x.bits.toNat < 2 ^ 64 := x.bits.toNat_lt
  have hbits : (if x.negative then Nat.pow 2 63 else 0) + x.unsignedBits = x.bits.toNat := by
    have hpow : Nat.pow 2 63 = 2 ^ 63 := rfl
    unfold negative unsignedBits
    rw [hpow]
    by_cases h : 2 ^ 63 ≤ x.bits.toNat
    · simp only [ge_iff_le, h, decide_true, if_true]
      omega
    · simp only [ge_iff_le, h, decide_false, Bool.false_eq_true, if_false]
      omega
  rw [ofSign, hbits]
  exact congrArg mk (by simp)

/-- The bits of a double without a sign are those that it is made of. -/
theorem unsignedBits_ofSign {n : Nat} (hn : n ≤ infinityBits) :
    (ofSign false n).unsignedBits = n := by
  have hlt : n < Nat.pow 2 63 := Nat.lt_of_le_of_lt hn (by decide)
  have hlt' : n < 2 ^ 64 := Nat.lt_of_lt_of_le hlt (by decide)
  have hbits : (ofSign false n).bits.toNat = n := by
    simp only [ofSign, Bool.false_eq_true, if_false, Nat.zero_add]
    exact Nat.mod_eq_of_lt hlt'
  rw [unsignedBits, hbits, Nat.mod_eq_of_lt hlt]

/-! ### A common factor -/

theorem roundDiv_mul (num den : Nat) {c : Nat} (hc : 0 < c) :
    roundDiv (num * c) (den * c) = roundDiv num den := by
  have hdiv : num * c / (den * c) = num / den := Nat.mul_div_mul_right _ _ hc
  have hmod : num * c % (den * c) = num % den * c := Nat.mul_mod_mul_right _ _ _
  have hlt : den * c < 2 * (num % den * c) ↔ den < 2 * (num % den) := by
    rw [← Nat.mul_assoc]
    exact Nat.mul_lt_mul_right hc
  have heq : den * c = 2 * (num % den * c) ↔ den = 2 * (num % den) := by
    rw [← Nat.mul_assoc]
    exact Nat.mul_left_inj (Nat.pos_iff_ne_zero.mp hc)
  simp only [roundDiv, hdiv, hmod, hlt, heq]

/-- A common factor makes no difference. -/
theorem ratioBits_mul (num den : Nat) {c : Nat} (hc : 0 < c) :
    ratioBits (num * c) (den * c) = ratioBits num den := by
  unfold ratioBits
  generalize Nat.pow 2 1074 = w
  have hdiv : num * c * w / (den * c) = num * w / den := by
    rw [Nat.mul_right_comm]
    exact Nat.mul_div_mul_right _ _ hc
  have hround : ∀ d, roundDiv (num * c * w) (den * c * d) = roundDiv (num * w) (den * d) := by
    intro d
    rw [Nat.mul_right_comm num c w, Nat.mul_right_comm den c d]
    exact roundDiv_mul _ _ hc
  simp only [hdiv, hround]

/-! ### A factor of ten -/

theorem digitCount_mul_ten {n : Nat} (hn : 0 < n) : digitCount (n * 10) = digitCount n + 1 := by
  have happend := Nat.toDigits_append_toDigits (b := 10) (n := n) (d := 0) (by omega) hn (by omega)
  rw [Nat.add_zero, Nat.mul_comm] at happend
  rw [digitCount, ← happend, List.length_append]
  rfl

theorem digitCount_mul_pow {n : Nat} (hn : 0 < n) (k : Nat) :
    digitCount (n * 10 ^ k) = digitCount n + k := by
  induction k with
  | zero => simp
  | succ k ih =>
    rw [Nat.pow_succ, ← Nat.mul_assoc, digitCount_mul_ten (Nat.mul_pos hn (Nat.pow_pos (by decide))), ih,
      Nat.add_assoc]

/-- The same number is the same quotient, but for a common factor. -/
theorem decimalRatio_scale (digits k : Nat) (exponent : Int) :
    decimalRatio (digits * 10 ^ k) (exponent - k) = decimalRatio digits exponent := by
  have hpow : ∀ n, Nat.pow 10 n = 10 ^ n := fun _ => rfl
  simp only [decimalRatio, hpow]
  rcases Int.lt_or_le exponent 0 with hneg | hpos
  · -- both are divided by a power of ten
    have hexponent : (-(exponent - k)).toNat = (-exponent).toNat + k := by omega
    rw [if_pos hneg, if_pos (by omega), hexponent, Nat.pow_add]
    exact ratioBits_mul _ _ (Nat.pow_pos (by decide))
  · rw [if_neg (Int.not_lt.mpr hpos)]
    by_cases hlater : exponent - k < 0
    · -- the zeros more than make up for the exponent
      have hk : k = exponent.toNat + (-(exponent - k)).toNat := by omega
      have hmul := ratioBits_mul (digits * 10 ^ exponent.toNat) 1
        (c := 10 ^ (-(exponent - k)).toNat) (Nat.pow_pos (by decide))
      rw [Nat.one_mul, Nat.mul_assoc, ← Nat.pow_add, ← hk] at hmul
      rw [if_pos hlater, hmul]
    · have hexponent : exponent.toNat = k + (exponent - k).toNat := by omega
      rw [if_neg hlater, hexponent, Nat.pow_add, Nat.mul_assoc]

/-- **The same number with more zeros** reads as the same double. -/
theorem decimalBits_scale (digits k : Nat) (exponent : Int) :
    decimalBits (digits * 10 ^ k) (exponent - k) = decimalBits digits exponent := by
  rcases Nat.eq_zero_or_pos digits with rfl | hpos
  · rw [Nat.zero_mul, decimalBits_zero, decimalBits_zero]
  · have hcount : exponent - k + digitCount (digits * 10 ^ k) = exponent + digitCount digits := by
      rw [digitCount_mul_pow hpos]
      omega
    have hpos' : 0 < digits * 10 ^ k := Nat.mul_pos hpos (Nat.pow_pos (by decide))
    simp only [decimalBits_of_pos hpos, decimalBits_of_pos hpos', hcount, decimalRatio_scale]

theorem decimalBits_dropZeros (fuel : Nat) (d : Decimal) :
    decimalBits (dropZeros fuel d).digits (dropZeros fuel d).exponent =
      decimalBits d.digits d.exponent := by
  induction fuel generalizing d with
  | zero => rfl
  | succ fuel ih =>
    rw [dropZeros]
    split
    · next h =>
      have hdigits : d.digits = d.digits / 10 * 10 ^ 1 := by omega
      have hexponent : d.exponent = d.exponent + 1 - (1 : Nat) := by omega
      rw [ih]
      simp only
      rw [← decimalBits_scale (d.digits / 10) 1 (d.exponent + 1), ← hdigits, ← hexponent]
    · rfl

/-! ### The exact value -/

theorem roundDiv_mul_self (m : Nat) {c : Nat} (hc : 0 < c) : roundDiv (m * c) c = m := by
  have hdiv : m * c / c = m := Nat.mul_div_cancel m hc
  have hmod : m * c % c = 0 := Nat.mul_mod_left m c
  rw [roundDiv, hdiv, hmod, if_neg (by omega)]

/-- A number of at most fifty-three bits with zeros behind has no more bits than a double. -/
theorem ratioBits_exact {m q : Nat} (hm : 0 < m) (hlt : m < 2 ^ 53) (hq : 2 ^ 52 ≤ m ∨ q = 0) :
    ratioBits (m * Nat.pow 2 q) (Nat.pow 2 1074) =
      min infinityBits (if m < Nat.pow 2 52 then m else q * Nat.pow 2 52 + m) := by
  have hlog : (m * 2 ^ q).log2 - 52 = q := by
    have hne : m * 2 ^ q ≠ 0 := Nat.ne_of_gt (Nat.mul_pos hm (Nat.two_pow_pos q))
    rcases hq with hlow | rfl
    · have hbits : (m * 2 ^ q).log2 = 52 + q := by
        rw [Nat.log2_eq_iff hne, Nat.pow_add, Nat.add_right_comm, Nat.pow_add]
        exact ⟨Nat.mul_le_mul_right _ hlow, Nat.mul_lt_mul_of_pos_right hlt (Nat.two_pow_pos q)⟩
      omega
    · have hbits : (m * 2 ^ 0).log2 < 53 := (Nat.log2_lt hne).mpr (by omega)
      omega
  have hpow : ∀ k, 0 < Nat.pow 2 k := Nat.two_pow_pos
  have hw := hpow 1074
  unfold ratioBits
  generalize Nat.pow 2 1074 = w at hw
  have hdiv : m * Nat.pow 2 q * w / w = m * 2 ^ q := Nat.mul_div_cancel _ hw
  have hround : roundDiv (m * Nat.pow 2 q * w) (w * Nat.pow 2 q) = m := by
    rw [Nat.mul_assoc, Nat.mul_comm (Nat.pow 2 q) w]
    exact roundDiv_mul_self m (Nat.mul_pos hw (Nat.two_pow_pos q))
  simp only [hdiv, hlog, hround]

/-- What the bits of a finite double say of its size. -/
theorem magnitude_spec {x : Double} (hfinite : x.isFinite = true) :
    x.magnitude.1 < 2 ^ 53 ∧ x.magnitude.2 ≤ 2045 ∧ (2 ^ 52 ≤ x.magnitude.1 ∨ x.magnitude.2 = 0) ∧
      (if x.magnitude.1 < Nat.pow 2 52 then x.magnitude.1
        else x.magnitude.2 * Nat.pow 2 52 + x.magnitude.1) = x.unsignedBits := by
  have hpow : Nat.pow 2 52 = 4503599627370496 := rfl
  have hbound : x.unsignedBits < 9218868437227405312 := of_decide_eq_true hfinite
  unfold magnitude
  simp only [hpow]
  split
  · refine ⟨by omega, by omega, .inr rfl, ?_⟩
    simp only
    split <;> omega
  · refine ⟨by omega, by omega, .inl (by omega), ?_⟩
    simp only
    split <;> omega

/-- Powers of five in the digits make up for the powers of ten in the exponent. -/
theorem decimalRatio_exact (m : Nat) {k : Nat} (hk : 0 < k) :
    decimalRatio (m * Nat.pow 5 k) (-k) = ratioBits m (Nat.pow 2 k) := by
  have hexponent : (-(-(k : Int))).toNat = k := by omega
  have hmul : Nat.pow 10 k = Nat.pow 2 k * Nat.pow 5 k := Nat.mul_pow 2 5 k
  rw [decimalRatio, if_pos (by omega), hexponent, hmul]
  exact ratioBits_mul _ _ (Nat.pow_pos (by decide))

theorem digitCount_bounds {n low high : Nat} (hlow : 0 < low) (hhigh : 0 < high)
    (hle : Nat.pow 10 low ≤ n) (hlt : n < Nat.pow 10 high) :
    low < digitCount n ∧ digitCount n ≤ high := by
  constructor
  · rwa [← Nat.not_le, digitCount, Nat.length_toDigits_le_iff (by decide) hlow, Nat.not_lt]
  · rwa [digitCount, Nat.length_toDigits_le_iff (by decide) hhigh]

/-- A number between two powers of ten that are within the limits on the exponent. -/
theorem decimalBits_eq_decimalRatio {n low high : Nat} {exponent : Int} (hlow : 0 < low)
    (hhigh : 0 < high) (hle : Nat.pow 10 low ≤ n) (hlt : n < Nat.pow 10 high)
    (hleast : -330 ≤ exponent + low) (hgreatest : exponent + high ≤ 310) :
    decimalBits n exponent = decimalRatio n exponent := by
  obtain ⟨hmore, hless⟩ := digitCount_bounds hlow hhigh hle hlt
  have hpos : 0 < n := Nat.lt_of_lt_of_le (Nat.pow_pos (by decide)) hle
  rw [decimalBits_of_pos hpos, if_neg (by omega), if_neg (by omega)]

/-- The digits of the exact value are between two powers of ten. -/
theorem exact_bounds {m bits power low high : Nat} (hm : 0 < m) (hlt : m < Nat.pow 2 bits)
    (hlow : Nat.pow 10 low ≤ power) (hhigh : Nat.pow 2 bits * power ≤ Nat.pow 10 high) :
    Nat.pow 10 low ≤ m * power ∧ m * power < Nat.pow 10 high := by
  have hpower : 0 < power := Nat.lt_of_lt_of_le (Nat.pow_pos (by decide)) hlow
  exact ⟨Nat.le_trans hlow (Nat.le_mul_of_pos_left power hm),
    Nat.lt_of_lt_of_le (Nat.mul_lt_mul_of_pos_right hlt hpower) hhigh⟩

theorem decimalBits_exact {m bits : Nat} (places low high : Nat) (hm : 0 < m)
    (hlt : m < Nat.pow 2 bits) (hplaces : 0 < places) (hlow : Nat.pow 10 low ≤ Nat.pow 5 places)
    (hhigh : Nat.pow 2 bits * Nat.pow 5 places ≤ Nat.pow 10 high)
    (hpos : 0 < low ∧ 0 < high) (hleast : places ≤ 330 + low) (hgreatest : high ≤ 310 + places) :
    decimalBits (m * Nat.pow 5 places) (-places) = ratioBits m (Nat.pow 2 places) := by
  obtain ⟨hle, hlt⟩ := exact_bounds hm hlt hlow hhigh
  rw [decimalBits_eq_decimalRatio hpos.1 hpos.2 hle hlt (by omega) (by omega)]
  exact decimalRatio_exact m hplaces

/-- **The exact value of a finite double** reads as its bits. -/
theorem decimalBits_exactDecimal {x : Double} (hfinite : x.isFinite = true)
    (hzero : x.isZero = false) :
    decimalBits (exactDecimal x.magnitude.1 x.magnitude.2).digits
      (exactDecimal x.magnitude.1 x.magnitude.2).exponent = x.unsignedBits := by
  obtain ⟨hlt, hq, hnormal, hbits⟩ := magnitude_spec hfinite
  have hbound : x.unsignedBits ≤ infinityBits := Nat.le_of_lt (of_decide_eq_true hfinite)
  have hne : x.unsignedBits ≠ 0 := of_decide_eq_false hzero
  generalize x.magnitude.1 = m, x.magnitude.2 = q at hlt hq hnormal hbits ⊢
  have hm : 0 < m := by
    rcases hnormal with hlow | rfl
    · omega
    · refine Nat.pos_of_ne_zero fun heq => hne ?_
      rw [← hbits, heq]
      rfl
  have hpow : ∀ k, 0 < Nat.pow 2 k := Nat.two_pow_pos
  have hsize : ∀ k, 53 + q ≤ k → m * Nat.pow 2 q < Nat.pow 2 k := by
    intro k hk
    refine Nat.lt_of_lt_of_le (Nat.mul_lt_mul_of_pos_right hlt (hpow q)) ?_
    exact (Nat.pow_add 2 53 q).symm.trans_le (Nat.pow_le_pow_right (by decide) hk)
  have hexact := decimalBits_exact 1074 744 1384 (Nat.mul_pos hm (hpow q))
    (hsize 2098 (by omega)) (by decide) (by decide +kernel) (by decide +kernel) (by decide)
    (by decide) (by decide)
  calc decimalBits (exactDecimal m q).digits (exactDecimal m q).exponent
      = ratioBits (m * Nat.pow 2 q) (Nat.pow 2 1074) := hexact
    _ = min infinityBits (if m < Nat.pow 2 52 then m else q * Nat.pow 2 52 + m) :=
      ratioBits_exact hm hlt hnormal
    _ = x.unsignedBits := by rw [hbits, Nat.min_eq_right hbound]

/-! ### The shortest decimal -/

/-- **A finite double is written as a decimal that reads as the same double.** -/
theorem ofSignedDecimal_shortest {x : Double} (hfinite : x.isFinite = true) :
    ofSignedDecimal x.negative x.shortest = x := by
  have hbound : x.unsignedBits ≤ infinityBits := Nat.le_of_lt (of_decide_eq_true hfinite)
  suffices hbits : decimalBits x.shortest.digits x.shortest.exponent = x.unsignedBits by
    rw [ofSignedDecimal, ofDecimal_eq, hbits, ofSign_negative]
  unfold shortest
  cases hzero : x.isZero with
  | true =>
    have hzero' : x.unsignedBits = 0 := of_decide_eq_true hzero
    rw [if_pos rfl, hzero']
    rfl
  | false =>
    rw [if_neg Bool.false_ne_true]
    simp only
    split
    · next d hd =>
      -- a candidate that reads back has the bits of the double
      have hreads := List.find?_some hd
      rw [decide_eq_true_eq, ofSignedDecimal, ofDecimal_eq] at hreads
      have hunsigned := congrArg unsignedBits hreads
      rw [unsignedBits_ofSign (decimalBits_le _ _), unsignedBits_ofSign hbound] at hunsigned
      rw [decimalBits_dropZeros, hunsigned]
    · rw [decimalBits_exactDecimal hfinite hzero]

end NestedTables.Double
