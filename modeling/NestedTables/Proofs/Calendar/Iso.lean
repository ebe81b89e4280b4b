import Mathlib.Data.List.Basic
import Mathlib.Data.List.TakeWhile
import NestedTables.Calendar.Iso

/-!
# What is read of a date with a numeric offset behind it

A date is written in one of six layouts, `Iso.DateLayout`, and what stands behind it does not change
what is read of it (`Iso.date?_eq_some_iff`). Where the date ends has been decided before it is
read, by `Iso.dateEnd`; the two agree about every date that can be read
(`Iso.DateLayout.dateEnd_append`).

So if `+00:00` is put behind a text, the plus sign is never part of the date. If the text is a date
and nothing else, the sign is what stands between the date and the time, and no offset is left
(`Timestamp.ofIso?_of_fills`). Otherwise it is part of the time, and the offset begins with the
first mark there. That mark can be another one, but then the plus sign stands in the way of the
clock of that offset, unless a NUL ends the clock before (`Iso.nul_mem_of_clock?`).
-/

namespace NestedTables

namespace Iso

/-! ### Digits -/

/-- Whether a text consists of so many digits and has a value. -/
structure Digits (count : Nat) (ds : List Char) (n : Nat) : Prop where
  length : ds.length = count
  value : number? ds = some n

variable {count n : Nat} {ds cs rest : List Char}

theorem isDigit_of_number? (h : number? ds = some n) : ∀ c ∈ ds, c.isDigit = true := by
  unfold number? at h
  split at h
  · next hall => exact List.all_eq_true.mp hall
  · simp at h

/-- **Digits are read** whatever stands behind them. -/
theorem digits?_eq_some_iff :
    digits? count cs = some (n, rest) ↔ ∃ ds, cs = ds ++ rest ∧ Digits count ds n := by
  unfold digits?
  constructor
  · intro h
    split at h
    · next hlength =>
      obtain ⟨m, hvalue, heq⟩ := Option.map_eq_some_iff.mp h
      obtain ⟨rfl, rfl⟩ := Prod.mk.inj heq
      exact ⟨cs.take count, (List.take_append_drop count cs).symm, hlength, hvalue⟩
    · simp at h
  · rintro ⟨ds, rfl, rfl, hvalue⟩
    simp [hvalue]

theorem Digits.read (h : Digits count ds n) (rest : List Char) :
    digits? count (ds ++ rest) = some (n, rest) :=
  digits?_eq_some_iff.mpr ⟨ds, rfl, h⟩

theorem Digits.exists_one (h : Digits 1 ds n) : ∃ a, ds = [a] ∧ a.isDigit = true := by
  obtain ⟨a, rfl⟩ := List.length_eq_one_iff.mp h.length
  exact ⟨a, rfl, isDigit_of_number? h.value a List.mem_cons_self⟩

theorem Digits.exists_two (h : Digits 2 ds n) :
    ∃ a b, ds = [a, b] ∧ a.isDigit = true ∧ b.isDigit = true := by
  obtain ⟨a, b, rfl⟩ := List.length_eq_two.mp h.length
  have hdigit := isDigit_of_number? h.value
  exact ⟨a, b, rfl, hdigit a (by simp), hdigit b (by simp)⟩

theorem Digits.not_mem {c : Char} (h : Digits count ds n) (hc : c.isDigit = false) : c ∉ ds := by
  intro hmem
  exact Bool.false_ne_true (hc.symm.trans (isDigit_of_number? h.value c hmem))

theorem ne_of_isDigit {a c : Char} (ha : a.isDigit = true) (hc : c.isDigit = false) : a ≠ c := by
  rintro rfl
  exact Bool.false_ne_true (hc.symm.trans ha)

/-! ### Dates -/

/-- The hyphen between two parts of a date, where one is called for. -/
def hyphens (called : Bool) : List Char :=
  if called then ['-'] else []

theorem hyphen?_eq_some_iff {called : Bool} :
    hyphen? called cs = some rest ↔ cs = hyphens called ++ rest := by
  unfold hyphen? hyphens
  cases called with
  | false => simp
  | true =>
    rw [if_pos rfl, if_pos rfl, List.singleton_append]
    split <;> simp_all

/-- The layouts of a date that is read with `size` characters meant for it: by month and day or by
week, each with hyphens or without. A date by week has a day of the week if its size leaves room for
one. -/
inductive DateLayout (size : Nat) : List Char → Date → Prop
  | month (called : Bool) {y m d : List Char} {year month day : Nat} {date : Date}
      (hy : Digits 4 y year) (hm : Digits 2 m month) (hd : Digits 2 d day)
      (hdate : (Date.make year month day).toOption = some date) :
      DateLayout size (y ++ (hyphens called ++ (m ++ (hyphens called ++ d)))) date
  | week (called : Bool) {y w : List Char} {year week : Nat} {date : Date} (hy : Digits 4 y year)
      (hw : Digits 2 w week) (hsize : size ≤ 7 + (hyphens called).length)
      (hdate : Date.ofWeek? year week 1 = some date) :
      DateLayout size (y ++ (hyphens called ++ 'W' :: w)) date
  | weekday (called : Bool) {y w d : List Char} {year week day : Nat} {date : Date}
      (hy : Digits 4 y year) (hw : Digits 2 w week) (hsize : 7 + (hyphens called).length < size)
      (hd : Digits 1 d day) (hdate : Date.ofWeek? year week day = some date) :
      DateLayout size (y ++ (hyphens called ++ 'W' :: (w ++ (hyphens called ++ d)))) date

variable {size : Nat} {date : Date}

/-- **What stands behind a date** is not looked at. -/
theorem DateLayout.read (h : DateLayout size ds date) (rest : List Char) :
    date? size (ds ++ rest) = some (date, rest) := by
  cases h with
  | @month called y m d _ _ _ _ hy hm hd hdate =>
    have hhyphen : hyphen? called (hyphens called ++ (d ++ rest)) = some (d ++ rest) :=
      hyphen?_eq_some_iff.mpr rfl
    have hmonth := hm.read (hyphens called ++ (d ++ rest))
    obtain ⟨a, b, rfl, ha, -⟩ := hm.exists_two
    have hminus := ne_of_isDigit ha (by decide : '-'.isDigit = false)
    have hweek := ne_of_isDigit ha (by decide : 'W'.isDigit = false)
    simp only [List.append_assoc, List.cons_append, List.nil_append] at hmonth ⊢
    cases called <;>
      simp_all [date?, hy.read, hd.read, hyphens]
  | week called hy hw hsize hdate =>
    cases called with
    | false =>
      have hsize : size ≤ 7 := hsize
      simp [hyphens, date?, hy.read, hw.read, hy.length, hw.length, hdate]
      omega
    | true =>
      have hsize : size ≤ 8 := hsize
      simp [hyphens, date?, hy.read, hw.read, hy.length, hw.length, hdate]
      omega
  | weekday called hy hw hsize hd hdate =>
    cases called with
    | false =>
      have hsize : 7 < size := hsize
      simp [hyphens, date?, hyphen?, hy.read, hw.read, hd.read, hy.length, hw.length, hd.length,
        hdate]
      omega
    | true =>
      have hsize : 8 < size := hsize
      simp [hyphens, date?, hyphen?, hy.read, hw.read, hd.read, hy.length, hw.length, hd.length,
        hdate]
      omega

theorem exists_hyphens (cs : List Char) :
    ∃ next, cs = hyphens (cs.head? = some '-') ++ next ∧
      (if cs.head? = some '-' then cs.drop 1 else cs) = next := by
  refine ⟨_, ?_, rfl⟩
  split
  · next h =>
    obtain ⟨rest, rfl⟩ := List.head?_eq_some_iff.mp h
    rfl
  · next h => simp [hyphens, h]

/-- **Every date that is read** is written in one of the layouts. -/
theorem date?_eq_some_iff :
    date? size cs = some (date, rest) ↔ ∃ ds, cs = ds ++ rest ∧ DateLayout size ds date := by
  constructor
  · intro h
    obtain ⟨⟨year, after⟩, hyear, h⟩ := Option.bind_eq_some_iff.mp h
    obtain ⟨y, rfl, hy⟩ := digits?_eq_some_iff.mp hyear
    obtain ⟨next, hafter, hnext⟩ := exists_hyphens after
    dsimp only at h
    rw [hnext] at h
    generalize decide (after.head? = some '-') = called at h hafter
    subst hafter
    split at h
    · next next =>
      obtain ⟨⟨week, after⟩, hweek, h⟩ := Option.bind_eq_some_iff.mp h
      obtain ⟨w, rfl, hw⟩ := digits?_eq_some_iff.mp hweek
      split at h
      · next hroom =>
        obtain ⟨after, hhyphen, h⟩ := Option.bind_eq_some_iff.mp h
        obtain rfl := hyphen?_eq_some_iff.mp hhyphen
        obtain ⟨⟨day, after⟩, hday, h⟩ := Option.bind_eq_some_iff.mp h
        obtain ⟨d, rfl, hd⟩ := digits?_eq_some_iff.mp hday
        obtain ⟨date, hdate, heq⟩ := Option.map_eq_some_iff.mp h
        obtain ⟨rfl, rfl⟩ := Prod.mk.inj heq
        refine ⟨_, ?_, .weekday called hy hw ?_ hd hdate⟩
        · simp
        · simp [hy.length, hw.length] at hroom
          omega
      · next hfilled =>
        obtain ⟨date, hdate, heq⟩ := Option.map_eq_some_iff.mp h
        obtain ⟨rfl, rfl⟩ := Prod.mk.inj heq
        refine ⟨_, ?_, .week called hy hw ?_ hdate⟩
        · simp
        · simp [hy.length, hw.length] at hfilled
          omega
    · obtain ⟨⟨month, after⟩, hmonth, hday⟩ := Option.bind_eq_some_iff.mp h
      obtain ⟨m, rfl, hm⟩ := digits?_eq_some_iff.mp hmonth
      obtain ⟨after, hhyphen, hday⟩ := Option.bind_eq_some_iff.mp hday
      obtain rfl := hyphen?_eq_some_iff.mp hhyphen
      obtain ⟨⟨day, after⟩, hday, hmake⟩ := Option.bind_eq_some_iff.mp hday
      obtain ⟨d, rfl, hd⟩ := digits?_eq_some_iff.mp hday
      obtain ⟨date, hdate, heq⟩ := Option.map_eq_some_iff.mp hmake
      obtain ⟨rfl, rfl⟩ := Prod.mk.inj heq
      exact ⟨_, by simp, .month called hy hm hd hdate⟩
  · rintro ⟨ds, rfl, h⟩
    exact h.read rest

/-- **Where a date ends** has been decided rightly if the date is read with this end, and also if
what stands behind it could not go on with a date. -/
theorem DateLayout.dateEnd_append (h : DateLayout size ds date)
    (hend : size = dateEnd (ds ++ rest) ∨ ∀ c ∈ rest.head?, c ≠ '-' ∧ c.isDigit = false) :
    dateEnd (ds ++ rest) = ds.length := by
  -- the three places in which the first character of the rest is asked for
  have hrest : (∀ c ∈ rest.head?, c ≠ '-' ∧ c.isDigit = false) → rest[0]? ≠ some '-' ∧
      rest[0]?.any Char.isDigit = false ∧ rest.takeWhile Char.isDigit = [] := by
    cases rest <;> simp +contextual
  replace hend := hend.imp_right hrest
  cases h with
  | month called hy hm hd hdate =>
    obtain ⟨_, _, _, _, rfl⟩ := List.length_eq_four.mp hy.length
    obtain ⟨a, b, rfl, ha, -⟩ := hm.exists_two
    obtain ⟨c, d, rfl, -⟩ := hd.exists_two
    have hminus := ne_of_isDigit ha (by decide : '-'.isDigit = false)
    have hweek := ne_of_isDigit ha (by decide : 'W'.isDigit = false)
    cases called <;> simp [hyphens, dateEnd, hminus, hweek]
  | week called hy hw hsize hdate =>
    obtain ⟨_, _, _, _, rfl⟩ := List.length_eq_four.mp hy.length
    obtain ⟨_, _, rfl, -⟩ := hw.exists_two
    cases called
    all_goals
      simp [hyphens, dateEnd, -List.takeWhile_eq_nil_iff] at hsize hend ⊢
      grind
  | weekday called hy hw hsize hd hdate =>
    obtain ⟨_, _, _, _, rfl⟩ := List.length_eq_four.mp hy.length
    obtain ⟨_, _, rfl, -⟩ := hw.exists_two
    obtain ⟨_, rfl, ha⟩ := hd.exists_one
    cases called
    all_goals
      simp [hyphens, dateEnd, ha, -List.takeWhile_eq_nil_iff] at hsize hend ⊢
      grind

/-- There is no plus sign in a date. -/
theorem DateLayout.plus_not_mem (h : DateLayout size ds date) : '+' ∉ ds := by
  have hplus : '+'.isDigit = false := by decide
  have hhyphens : ∀ called, '+' ∉ hyphens called := by decide
  cases h with
  | month called hy hm hd hdate =>
    simp [hy.not_mem hplus, hm.not_mem hplus, hd.not_mem hplus, hhyphens]
  | week called hy hw hsize hdate => simp [hy.not_mem hplus, hw.not_mem hplus, hhyphens]
  | weekday called hy hw hsize hd hdate =>
    simp [hy.not_mem hplus, hw.not_mem hplus, hd.not_mem hplus, hhyphens]

/-! ### Clocks and offsets -/

variable {clock : Clock}

theorem nul_mem_of_isMore (h : isMore false cs = false) (hcs : cs ≠ []) : '\x00' ∈ cs := by
  obtain ⟨c, cs, rfl⟩ := List.exists_cons_of_ne_nil hcs
  obtain rfl : c = '\x00' := by simpa [isMore] using h
  exact List.mem_cons_self

/-- A fraction with a plus sign behind it ends with a NUL. -/
theorem nul_mem_of_fraction? (h : fraction? false cs = some clock) (hmore : clock.more = false)
    (hplus : '+' ∈ cs) : '\x00' ∈ cs := by
  obtain ⟨n, hvalue, rfl⟩ := Option.map_eq_some_iff.mp h
  have hsuffix : (cs.drop 6).dropWhile Char.isDigit <:+ cs :=
    (List.dropWhile_suffix _).trans (List.drop_suffix 6 cs)
  refine hsuffix.subset (nul_mem_of_isMore hmore fun hnil => ?_)
  rw [← List.take_append_drop 6 cs, List.mem_append] at hplus
  rcases hplus with hplus | hplus
  · exact absurd (isDigit_of_number? hvalue _ hplus) (by decide)
  · exact absurd (List.dropWhile_eq_nil_iff.mp hnil _ hplus) (by decide)

/-- **How a clock is read**: two digits, and behind them nothing, a single octet, or the rest of the
clock, with or without a separator in front. -/
theorem exists_of_clock? {followed : Bool} {smaller : Nat} {colons : Option Bool}
    (h : clock? followed smaller colons cs = some clock) :
    ∃ n after, digits? 2 cs = some (n, after) ∧
      ((after = [] ∧ clock.more = followed) ∨
        (after ≠ [] ∧ clock.more = isMore followed after) ∨
        ∃ below tail, clock.more = below.more ∧
          (after = tail ∨ ∃ c ∈ [':', '.', ','], after = c :: tail) ∧
          (fraction? followed tail = some below ∨ ∃ k separated, smaller = k + 1 ∧
            clock? followed k (some separated) tail = some below)) := by
  rw [clock?.eq_def] at h
  split at h
  · simp at h
  · next n hdigits =>
    obtain rfl := Option.some.inj h
    exact ⟨n, [], hdigits, Or.inl ⟨rfl, rfl⟩⟩
  · next n c rest hdigits =>
    refine ⟨n, c :: rest, hdigits, Or.inr ?_⟩
    split at h
    · next hlast =>
      obtain rfl := Option.some.inj h
      obtain rfl : rest = [] := by simp_all
      exact Or.inl ⟨List.cons_ne_nil _ _, rfl⟩
    · obtain ⟨below, hbelow, rfl⟩ := Option.map_eq_some_iff.mp h
      refine Or.inr ⟨below, ?_⟩
      split at hbelow
      · next hcolon =>
        obtain ⟨-, rfl⟩ : _ ∧ c = ':' := by simpa using hcolon
        refine ⟨rest, rfl, Or.inr ⟨_, by decide, rfl⟩, ?_⟩
        cases smaller with
        | zero => exact Or.inl hbelow
        | succ k => exact Or.inr ⟨k, _, rfl, hbelow⟩
      · split at hbelow
        · next hpoint =>
          have hc : c ∈ [':', '.', ','] := by
            rcases (by simpa using hpoint : c = '.' ∨ c = ',') with rfl | rfl <;> decide
          exact ⟨rest, rfl, Or.inr ⟨c, hc, rfl⟩, Or.inl hbelow⟩
        · split at hbelow
          · simp at hbelow
          · refine ⟨c :: rest, rfl, Or.inl rfl, ?_⟩
            cases smaller with
            | zero => exact Or.inl hbelow
            | succ k => exact Or.inr ⟨k, _, rfl, hbelow⟩

/-- **A clock** with a plus sign behind it ends with a NUL. -/
theorem nul_mem_of_clock? {smaller : Nat} {colons : Option Bool}
    (h : clock? false smaller colons cs = some clock) (hmore : clock.more = false)
    (hplus : '+' ∈ cs) : '\x00' ∈ cs := by
  induction smaller using Nat.strongRecOn generalizing colons cs clock with
  | ind smaller ih =>
    obtain ⟨n, after, hdigits, hafter⟩ := exists_of_clock? h
    obtain ⟨ds, rfl, hds⟩ := digits?_eq_some_iff.mp hdigits
    have hplus : '+' ∈ after := (List.mem_append.mp hplus).resolve_left (hds.not_mem (by decide))
    refine List.mem_append_right _ ?_
    rcases hafter with ⟨rfl, -⟩ | ⟨hne, hend⟩ | ⟨below, tail, hbelow, htail, hread⟩
    · simp at hplus
    · exact nul_mem_of_isMore (hend ▸ hmore) hne
    · -- what stands in front of the rest of the clock is no plus sign
      have hplus : '+' ∈ tail := by
        rcases htail with rfl | ⟨c, hc, rfl⟩
        · exact hplus
        · refine (List.mem_cons.mp hplus).resolve_left ?_
          rintro rfl
          exact absurd hc (by decide)
      have hnul : '\x00' ∈ tail := by
        rcases hread with hread | ⟨k, separated, rfl, hread⟩
        · exact nul_mem_of_fraction? hread (hbelow ▸ hmore) hplus
        · exact ih k (Nat.lt_succ_self k) hread (hbelow ▸ hmore) hplus
      rcases htail with rfl | ⟨c, -, rfl⟩
      · exact hnul
      · exact List.mem_cons_of_mem _ hnul

/-- **An offset** with a plus sign behind it is that of universal time, or ends with a NUL. -/
theorem eq_utc_of_offset? {mark : Char} {offset : Offset} (h : offset? (mark :: cs) = some offset)
    (hplus : '+' ∈ cs) : offset = .utc ∨ '\x00' ∈ cs := by
  simp only [offset?] at h
  split at h
  · split at h
    · simp at h
    · exact Or.inl (Option.some.inj h).symm
  · split at h
    · simp at h
    · next clock hclock =>
      split at h
      · simp at h
      · next hmore => exact Or.inr (nul_mem_of_clock? hclock (by simpa using hmore) hplus)

/-- The numeric offset of universal time. -/
def utcSuffix : List Char := "+00:00".toList

theorem utcSuffix_eq : utcSuffix = ['+', '0', '0', ':', '0', '0'] := String.toList_ofList

/-- **The offset begins with the first mark** of a text, which is the plus sign put behind it if
there is no other. -/
theorem exists_mark (cs : List Char) :
    ∃ mark after, (cs ++ utcSuffix).dropWhile (!isOffsetMark ·) = mark :: after ∧
      ∀ o, offset? (mark :: after) = some o → o = .utc ∨ '\x00' ∈ cs := by
  rw [List.dropWhile_append]
  split
  · have hplus : utcSuffix.dropWhile (!isOffsetMark ·) = '+' :: "00:00".toList := by decide
    have hutc : offset? ('+' :: "00:00".toList) = some .utc := by rfl
    exact ⟨_, _, hplus, fun o ho => Or.inl (Option.some.inj (ho.symm.trans hutc))⟩
  · next hmark =>
    rw [List.isEmpty_iff] at hmark
    obtain ⟨mark, after, hafter⟩ := List.exists_cons_of_ne_nil hmark
    refine ⟨mark, after ++ utcSuffix, by rw [hafter, List.cons_append], fun o ho => ?_⟩
    have hplus : '+' ∈ after ++ utcSuffix := List.mem_append_right _ (by decide)
    refine (eq_utc_of_offset? ho hplus).imp_right fun hnul => ?_
    have hnul : '\x00' ∈ after := (List.mem_append.mp hnul).resolve_right (by decide)
    exact (List.dropWhile_suffix _).subset (hafter ▸ List.mem_cons_of_mem _ hnul)

/-- **A time with the offset of universal time** behind it has that offset, or one that ends with a
NUL. -/
theorem exists_offset_of_time? {time : Time} {offset : Option Offset}
    (h : time? (cs ++ utcSuffix) = some (time, offset)) :
    ∃ o, offset = some o ∧ (o = .utc ∨ '\x00' ∈ cs) := by
  obtain ⟨mark, after, hafter, hoffset⟩ := exists_mark cs
  simp only [time?, hafter] at h
  split at h
  · simp at h
  · split at h
    · simp at h
    · obtain ⟨o, ho, heq⟩ := Option.map_eq_some_iff.mp h
      exact ⟨o, (Prod.mk.inj heq).2.symm, hoffset o ho⟩

end Iso

/-! ### Moments -/

/-- Whether a text is a date and nothing else. -/
def Date.Fills (date : Date) (cs : List Char) : Prop :=
  Iso.date? cs.length cs = some (date, [])

variable {cs : List Char}

theorem Date.fills_iff {date : Date} :
    date.Fills cs ↔ Iso.DateLayout cs.length cs date := by
  rw [Date.Fills, Iso.date?_eq_some_iff]
  simp

/-- **A date with the offset of universal time** behind it is read as its midnight, without an
offset. -/
theorem Timestamp.ofIso?_of_fills {date : Date} (h : date.Fills cs) :
    Timestamp.ofIso? (String.ofList (cs ++ Iso.utcSuffix)) = some ⟨date, .midnight, none⟩ := by
  rw [Date.fills_iff] at h
  have hend : Iso.dateEnd (cs ++ Iso.utcSuffix) = cs.length :=
    h.dateEnd_append (Or.inr (by simp [Iso.utcSuffix_eq]))
  have hdate := h.read Iso.utcSuffix
  have hdrop : (cs ++ Iso.utcSuffix).drop (cs.length + 1) = "00:00".toList := by
    rw [← List.drop_drop, List.drop_left]
    rfl
  have htime : Iso.time? "00:00".toList = some (.midnight, none) := by decide
  have hlonger : ¬ (cs ++ Iso.utcSuffix).length ≤ cs.length := by simp [Iso.utcSuffix_eq]
  simp only [Timestamp.ofIso?, String.toList_ofList, hend, hdate, hdrop, htime, if_neg hlonger,
    Option.map_some]

/-- A text that is not a date alone, but begins with one, has the whole of the date in front of an
offset that is put behind it. -/
theorem Date.exists_of_not_fills {date : Date} {rest : List Char}
    (h : Iso.date? (Iso.dateEnd (cs ++ Iso.utcSuffix)) (cs ++ Iso.utcSuffix) = some (date, rest))
    (hfills : ¬ date.Fills cs) :
    ∃ separator time, Iso.dateEnd (cs ++ Iso.utcSuffix) + (time.length + 1) = cs.length ∧
      cs.drop (Iso.dateEnd (cs ++ Iso.utcSuffix)) = separator :: time := by
  obtain ⟨ds, hds, hlayout⟩ := Iso.date?_eq_some_iff.mp h
  rw [hds] at hlayout ⊢
  have hend := hlayout.dateEnd_append (Or.inl rfl)
  rw [hend] at hlayout ⊢
  rw [Date.fills_iff] at hfills
  rcases List.append_eq_append_iff.mp hds with ⟨sign, rfl, hsign⟩ | ⟨after, rfl, -⟩
  · -- the plus sign would be part of the date
    cases sign with
    | nil =>
      rw [List.append_nil] at hlayout
      exact absurd hlayout hfills
    | cons c sign =>
      obtain rfl : '+' = c := (List.cons.inj hsign).1
      exact absurd (by simp) hlayout.plus_not_mem
  · cases after with
    | nil =>
      rw [List.append_nil] at hfills
      exact absurd hlayout hfills
    | cons separator time => exact ⟨separator, time, by simp, by simp⟩

/-- **Any other text with the offset of universal time** behind it that can be read has an offset,
which is that of universal time if there is no NUL in the text. -/
theorem Timestamp.exists_offset_of_ofIso? {t : Timestamp}
    (h : Timestamp.ofIso? (String.ofList (cs ++ Iso.utcSuffix)) = some t)
    (hfills : ∀ date : Date, ¬ date.Fills cs) :
    ∃ o, t.offset = some o ∧ (o = .utc ∨ '\x00' ∈ cs) := by
  simp only [Timestamp.ofIso?, String.toList_ofList] at h
  split at h
  · simp at h
  · next date rest hdate =>
    obtain ⟨separator, clock, hlength, hclock⟩ := Date.exists_of_not_fills hdate (hfills date)
    generalize Iso.dateEnd (cs ++ Iso.utcSuffix) = size at h hlength hclock
    have hlonger : ¬ (cs ++ Iso.utcSuffix).length ≤ size := by
      rw [List.length_append]
      omega
    have hdrop : (cs ++ Iso.utcSuffix).drop (size + 1) = clock ++ Iso.utcSuffix := by
      rw [← List.drop_drop, List.drop_append_of_le_length (by omega), hclock]
      rfl
    rw [if_neg hlonger, hdrop] at h
    obtain ⟨⟨time, offset⟩, htime, rfl⟩ := Option.map_eq_some_iff.mp h
    obtain ⟨o, ho, hutc⟩ := Iso.exists_offset_of_time? htime
    refine ⟨o, ho, hutc.imp_right fun hnul => ?_⟩
    exact (List.drop_suffix size cs).subset (hclock ▸ List.mem_cons_of_mem _ hnul)

end NestedTables
