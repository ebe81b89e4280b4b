import Mathlib.Data.List.Induction
import NestedTables.CommandLine

/-!
# Command lines that are understood

The words of a command line are gone through once, and each option takes effect on what has been
asked for before. Which command lines are understood, and what they ask for, can be said without
any order in time. The words give something to options, and some may be left that belong to none
(`Gives`); nothing of what is given may be excluded by the rest (`Allowed`); and every attribute of
what is asked for is found on its own among all that is given (`asked`). A command line is
understood if no word is left, what is given is allowed, and a schema is among it. This is what is
read, no more and no less (`read_eq_ok_iff`). All of it holds in both conventions, which differ in
what single words give; by the newer one they give a text to every option that takes a value
(`Asks.exists_text`).

The order matters for the two options that make reading stop. They do so if they are come to, with
nothing wrong before them, whatever stands behind (`read_eq_error_iff`). All other command lines
are refused.
-/

namespace NestedTables.CommandLine

/-! ### What is given to options -/

/-- The text of a word that belongs to no option, if it stands where no value is expected. -/
def Word.left? : Word → Option String
  | .option _ _ _ => none
  | .unknown text => some text
  | .plain text => some text
  | .hyphens => some "--"

variable {c : Convention}

/-- What some words give to options, in this order, and the words that are left. -/
inductive Gives (c : Convention) : List Word → List (Flag × Given) → List String → Prop
  | nil : Gives c [] [] []
  | left {w : Word} {text : String} {ws : List Word} {given : List (Flag × Given)}
      {left : List String} (hw : w.left? = some text) (hrest : Gives c ws given left) :
      Gives c (w :: ws) given (text :: left)
  /-- A word whose options have all that they need. Letters in it may be left over. -/
  | alone {f : Flag} {name : String} {attached : Attached} {ws : List Word}
      {options given : List (Flag × Given)} {extra : Option String} {left : List String}
      (heffect : effectOf c f (isSingle name) attached = .ok ⟨options, none, extra⟩)
      (hrest : Gives c ws given left) :
      Gives c (.option f name attached :: ws) (options ++ given) (extra.toList ++ left)
  /-- A word whose last option takes the next word for its value. -/
  | followed {f g : Flag} {name value : String} {attached : Attached} {ws : List Word}
      {options given : List (Flag × Given)} {extra : Option String} {left : List String}
      (heffect : effectOf c f (isSingle name) attached = .ok ⟨options, some g, extra⟩)
      (hrest : Gives c ws given left) :
      Gives c (.option f name attached :: .plain value :: ws)
        (options ++ [(g, .text value)] ++ given) left

namespace Progress

variable {p q : Progress} {given more : List (Flag × Given)} {left : List String}

theorem leaving_nil (p : Progress) : p.leaving [] = p := by
  simp [leaving]

theorem leaving_leaving (p : Progress) (words left : List String) :
    (p.leaving words).leaving left = p.leaving (words ++ left) := by
  simp [leaving]

/-- Options take effect whatever words are left. -/
theorem apply_leaving (p : Progress) (words : List String) (f : Flag) (value : Given) :
    (p.leaving words).apply f value = (p.apply f value).map (leaving · words) := by
  cases f with
  | help | version | schema | validateOnly | overridePrefix | idColumn | virtual => rfl
  | format =>
    cases value with
    | nothing => rfl
    | text s =>
      simp only [apply]
      split <;> rfl
  | verbose | quiet =>
    simp only [apply, apply_ite (Except.map _)]
    rfl

theorem applyAll_leaving (p : Progress) (words : List String) (given : List (Flag × Given)) :
    (p.leaving words).applyAll given = (p.applyAll given).map (leaving · words) := by
  induction given generalizing p with
  | nil => rfl
  | cons e given ih =>
    obtain ⟨f, value⟩ := e
    rw [applyAll, applyAll, apply_leaving]
    cases p.apply f value with
    | error stop => rfl
    | ok p' => exact ih p'

theorem applyAll_append (p : Progress) (given more : List (Flag × Given)) :
    p.applyAll (given ++ more) = (p.applyAll given).bind (applyAll · more) := by
  induction given generalizing p with
  | nil => rfl
  | cons e given ih =>
    obtain ⟨f, value⟩ := e
    rw [List.cons_append, applyAll, applyAll]
    cases p.apply f value with
    | error stop => rfl
    | ok p' => exact ih p'

theorem applyAll_singleton (p : Progress) (f : Flag) (value : Given) :
    p.applyAll [(f, value)] = p.apply f value := by
  rw [applyAll]
  cases p.apply f value <;> rfl

theorem exists_of_applyAll_eq_error {stop : Stop} (h : p.applyAll given = .error stop) :
    ∃ before f value after q, given = before ++ (f, value) :: after ∧
      p.applyAll before = .ok q ∧ q.apply f value = .error stop := by
  induction given generalizing p with
  | nil => cases h
  | cons e given ih =>
    obtain ⟨f, value⟩ := e
    rw [applyAll] at h
    cases hfirst : p.apply f value with
    | error stop' =>
      rw [hfirst] at h
      exact ⟨[], f, value, given, p, rfl, rfl, hfirst.trans h⟩
    | ok p' =>
      rw [hfirst] at h
      obtain ⟨before, g, value', after, q, rfl, hbefore, hstop⟩ := ih h
      refine ⟨(f, value) :: before, g, value', after, q, rfl, ?_, hstop⟩
      rw [applyAll, hfirst]
      exact hbefore

end Progress

section Words

variable {w : Word} {ws : List Word} {p q r : Progress} {given : List (Flag × Given)}
  {left : List String}

theorem readWords_of_left {text : String} (h : w.left? = some text) :
    readWords c (w :: ws) p = readWords c ws (p.leaving [text]) := by
  cases w with
  | option => cases h
  | unknown | plain | hyphens =>
    obtain rfl := Option.some.inj h
    rfl

/-- What words give to options takes effect when they are read, whatever stands behind them. -/
theorem readWords_append (h : Gives c ws given left) (rest : List Word) (p : Progress) :
    readWords c (ws ++ rest) p =
      (p.applyAll given).bind fun q => readWords c rest (q.leaving left) := by
  induction h generalizing p with
  | nil => simp [Progress.applyAll, Except.bind, Progress.leaving_nil]
  | @left w text ws given left hw _ ih =>
    rw [List.cons_append, readWords_of_left hw, ih, Progress.applyAll_leaving]
    cases p.applyAll given with
    | error stop => rfl
    | ok q => exact congrArg (readWords c rest) (q.leaving_leaving [text] left)
  | @alone f name attached ws options given extra left heffect _ ih =>
    rw [List.cons_append, readWords, heffect, Progress.applyAll_append]
    simp only
    cases p.applyAll options with
    | error stop => rfl
    | ok q =>
      simp only [Except.bind]
      rw [ih, Progress.applyAll_leaving]
      cases q.applyAll given with
      | error stop => rfl
      | ok r => exact congrArg (readWords c rest) (r.leaving_leaving extra.toList left)
  | @followed f g name value attached ws options given extra left heffect _ ih =>
    rw [List.cons_append, List.cons_append, readWords, heffect, Progress.applyAll_append]
    simp only
    cases p.applyAll (options ++ [(g, .text value)]) with
    | error stop => rfl
    | ok q => exact ih q

/-- Whether words are refused for the first of them, whatever has taken effect before. -/
def Blocks (c : Convention) (ws : List Word) : Prop :=
  ∀ p, ∃ reason, readWords c ws p = .error (.refused reason)

/-- **All words** give something to options up to the end, or up to one that is refused. -/
theorem exists_gives (c : Convention) (ws : List Word) : ∃ before rest given left,
    ws = before ++ rest ∧ Gives c before given left ∧ (rest = [] ∨ Blocks c rest) := by
  match ws with
  | [] => exact ⟨[], [], [], [], rfl, .nil, Or.inl rfl⟩
  | .plain text :: ws | .unknown text :: ws | .hyphens :: ws =>
    obtain ⟨before, rest, given, left, rfl, h, hrest⟩ := exists_gives c ws
    exact ⟨_ :: before, rest, given, _, rfl, .left rfl h, hrest⟩
  | .option f name attached :: ws =>
    cases heffect : effectOf c f (isSingle name) attached with
    | error reason =>
      refine ⟨[], _, [], [], rfl, .nil, Or.inr fun p => ⟨reason, ?_⟩⟩
      rw [readWords, heffect]
    | ok effect =>
      obtain ⟨options, pending, extra⟩ := effect
      cases pending with
      | none =>
        obtain ⟨before, rest, given, left, rfl, h, hrest⟩ := exists_gives c ws
        exact ⟨_ :: before, rest, _, _, rfl, .alone heffect h, hrest⟩
      | some g =>
        -- only a plain word can be the value, and it is used up together with the option
        match ws with
        | .plain value :: ws =>
          obtain ⟨before, rest, given, left, rfl, h, hrest⟩ := exists_gives c ws
          exact ⟨_ :: _ :: before, rest, _, left, rfl, .followed heffect h, hrest⟩
        | [] | .option _ _ _ :: _ | .unknown _ :: _ | .hyphens :: _ =>
          refine ⟨[], _, [], [], rfl, .nil, Or.inr fun p => ⟨.valueMissing g, ?_⟩⟩
          rw [readWords, heffect]
termination_by ws.length

theorem exists_of_readWords_eq_ok (h : readWords c ws p = .ok q) :
    ∃ given left r, Gives c ws given left ∧ p.applyAll given = .ok r ∧ q = r.leaving left := by
  obtain ⟨before, rest, given, left, rfl, hgives, hrest⟩ := exists_gives c ws
  rw [readWords_append hgives] at h
  cases happly : p.applyAll given with
  | error stop =>
    rw [happly] at h
    cases h
  | ok r =>
    rw [happly] at h
    rcases hrest with rfl | hblocks
    · exact ⟨given, left, r, by rwa [List.append_nil], happly, (Except.ok.inj h).symm⟩
    · obtain ⟨reason, hreason⟩ := hblocks (r.leaving left)
      cases hreason.symm.trans h

/-- Words that are not read are refused, or an option that is come to makes reading stop. -/
theorem exists_of_readWords_eq_error {stop : Stop} (h : readWords c ws p = .error stop) :
    (∃ reason, stop = .refused reason) ∨
      ∃ before rest given left, ws = before ++ rest ∧ Gives c before given left ∧
        p.applyAll given = .error stop := by
  obtain ⟨before, rest, given, left, rfl, hgives, hrest⟩ := exists_gives c ws
  rw [readWords_append hgives] at h
  cases happly : p.applyAll given with
  | error stop' =>
    rw [happly] at h
    obtain rfl : stop' = stop := Except.error.inj h
    exact Or.inr ⟨before, rest, given, left, rfl, hgives, happly⟩
  | ok r =>
    rw [happly] at h
    rcases hrest with rfl | hblocks
    · cases h
    · obtain ⟨reason, hreason⟩ := hblocks (r.leaving left)
      exact Or.inl ⟨reason, Except.error.inj (h.symm.trans hreason)⟩

end Words

/-! ### What is asked for -/

/-- What was given to an option the last time. -/
def lastOf (f : Flag) (given : List (Flag × Given)) : Option Given :=
  (given.reverse.find? fun e => e.1 = f).map (·.2)

/-- Whether an option is there. -/
def isGiven (f : Flag) (given : List (Flag × Given)) : Bool :=
  given.any (·.1 = f)

/-- What options ask for with what is given to them. -/
def asked (given : List (Flag × Given)) : Arguments where
  schema := lastOf .schema given
  format := ((lastOf .format given).bind Given.text?).getD defaultFormat
  validateOnly := isGiven .validateOnly given
  overridePrefix := lastOf .overridePrefix given
  idColumn := lastOf .idColumn given
  virtual := (given.filter (·.1 = .virtual)).map (·.2)
  verbosity := given.countP (·.1 = .verbose)
  quiet := isGiven .quiet given

/-- Whether options may stand beside each other, with what is given to them, in a command line that
asks for work. -/
@[mk_iff]
structure Allowed (given : List (Flag × Given)) : Prop where
  help : isGiven .help given = false
  version : isGiven .version given = false
  formats : ∀ name, (.format, .text name) ∈ given → name ∈ formatNames
  rivals : isGiven .verbose given = true → isGiven .quiet given = false

/-- Whether one more option may be there. -/
def Fits (given : List (Flag × Given)) : Flag → Given → Prop
  | .help, _ | .version, _ => False
  | .format, .text name => name ∈ formatNames
  | .verbose, _ => isGiven .quiet given = false
  | .quiet, _ => isGiven .verbose given = false
  | _, _ => True

section Asked

variable {given : List (Flag × Given)} {f : Flag} {value : Given}

theorem lastOf_append (g : Flag) :
    lastOf g (given ++ [(f, value)]) = if f = g then some value else lastOf g given := by
  simp only [lastOf, List.reverse_append, List.reverse_singleton, List.singleton_append,
    List.find?_cons]
  by_cases h : f = g <;> simp [h]

theorem isSome_lastOf (f : Flag) (given : List (Flag × Given)) :
    (lastOf f given).isSome = isGiven f given := by
  rw [lastOf, Option.isSome_map, List.isSome_find?, List.any_reverse, isGiven]

theorem isGiven_append (g : Flag) :
    isGiven g (given ++ [(f, value)]) = (isGiven g given || decide (f = g)) := by
  simp [isGiven]

theorem has_verbose_asked :
    ({ arguments := asked given } : Progress).has .verbose = isGiven .verbose given := by
  rw [Bool.eq_iff_iff, Progress.has, asked, decide_eq_true_iff, gt_iff_lt, List.countP_pos_iff,
    isGiven, List.any_eq_true]

theorem allowed_append_iff :
    Allowed (given ++ [(f, value)]) ↔ Allowed given ∧ Fits given f value := by
  simp only [allowed_iff, isGiven_append, List.mem_append, List.mem_singleton, Prod.mk.injEq]
  cases f with
  | help | version => simp [Fits]
  | schema | validateOnly | overridePrefix | idColumn | virtual => simp [Fits]
  | format =>
    cases value with
    | nothing => simp [Fits]
    | text s =>
      simp only [Fits, reduceCtorEq, decide_false, Bool.or_false, Given.text.injEq, true_and,
        or_imp, forall_and, forall_eq]
      tauto
  | verbose =>
    cases h : isGiven .quiet given <;> simp [Fits, h]
  | quiet =>
    cases h : isGiven .verbose given <;> simp [Fits, h]

/-- **One option** takes effect if it may be there. -/
theorem apply_asked_eq_ok_iff {q : Progress} :
    ({ arguments := asked given } : Progress).apply f value = .ok q ↔
      Fits given f value ∧ q = { arguments := asked (given ++ [(f, value)]) } := by
  rw [@eq_comm _ q]
  cases f with
  | help | version => simp [Progress.apply, Fits]
  | schema | validateOnly | overridePrefix | idColumn | virtual =>
    simp [Progress.apply, Fits, asked, lastOf_append, isGiven_append]
  | format =>
    cases value with
    | nothing => simp [Progress.apply, Fits, asked, lastOf_append, isGiven_append, Given.text?]
    | text s =>
      by_cases h : s ∈ formatNames <;>
        simp [Progress.apply, h, Fits, asked, lastOf_append, isGiven_append, Given.text?]
  | verbose =>
    have hhas : ({ arguments := asked given } : Progress).has .quiet = isGiven .quiet given := rfl
    simp only [Progress.apply, hhas]
    cases h : isGiven .quiet given <;> simp [Fits, h, asked, lastOf_append, isGiven_append]
  | quiet =>
    simp only [Progress.apply, has_verbose_asked]
    cases h : isGiven .verbose given <;> simp [Fits, h, asked, lastOf_append, isGiven_append]

/-- **All options** take effect if they may stand beside each other. -/
theorem applyAll_eq_ok_iff {q : Progress} : ({} : Progress).applyAll given = .ok q ↔
    Allowed given ∧ q = { arguments := asked given } := by
  -- from the end, since an option is allowed or not by those before it
  induction given using List.reverseRecOn generalizing q with
  | nil =>
    have hallowed : Allowed [] := ⟨rfl, rfl, nofun, nofun⟩
    have hasked : ({} : Progress) = { arguments := asked [] } := rfl
    simp only [Progress.applyAll, hallowed, true_and, ← hasked, Except.ok.injEq, eq_comm]
  | append_singleton given e ih =>
    obtain ⟨f, value⟩ := e
    rw [Progress.applyAll_append, allowed_append_iff]
    cases hbefore : ({} : Progress).applyAll given with
    | error stop =>
      have hnot : ¬ Allowed given := fun h => by
        rw [ih.mpr ⟨h, rfl⟩] at hbefore
        cases hbefore
      simp [Except.bind, hnot]
    | ok r =>
      obtain ⟨hallowed, rfl⟩ := ih.mp hbefore
      simp only [Except.bind, Progress.applyAll_singleton, apply_asked_eq_ok_iff, hallowed,
        true_and]

end Asked

/-! ### Command lines -/

/-- Whether a command line is understood, and what it asks for. -/
inductive Asks (c : Convention) (words : List String) : Arguments → Prop
  | intro {ws : List Word} {given : List (Flag × Given)} (hwords : wordsOf words = .ok ws)
      (hgives : Gives c ws given []) (hallowed : Allowed given)
      (hschema : isGiven .schema given = true) : Asks c words (asked given)

/-- Whether an option is come to in a command line: nothing is wrong with the words up to its own,
and all that is given before it is allowed. -/
inductive Reaches (c : Convention) (words : List String) (f : Flag) : Prop
  | intro {before rest : List Word} {given more : List (Flag × Given)} {value : Given}
      {left : List String} (hwords : wordsOf words = .ok (before ++ rest))
      (hgives : Gives c before (given ++ (f, value) :: more) left) (hallowed : Allowed given) :
      Reaches c words f

/-- The option that makes reading stop. -/
def Stop.flag? : Stop → Option Flag
  | .help => some .help
  | .version => some .version
  | .refused _ => none

section Read

variable {words : List String} {a : Arguments} {f : Flag} {stop : Stop}

theorem apply_eq_error_iff {p : Progress} {g : Flag} {value : Given}
    (hstop : stop.flag? = some f) : p.apply g value = .error stop ↔ g = f := by
  cases stop with
  | refused reason => cases hstop
  | help | version =>
    obtain rfl := Option.some.inj hstop
    cases g with
    | help | version | schema | validateOnly | overridePrefix | idColumn | virtual =>
      simp [Progress.apply]
    | format =>
      cases value with
      | nothing => simp [Progress.apply]
      | text s =>
        simp only [Progress.apply]
        split <;> simp
    | verbose | quiet =>
      simp only [Progress.apply]
      split <;> simp

/-- **Command lines that are understood** are read, and no others. -/
theorem read_eq_ok_iff : read c words = .ok a ↔ Asks c words a := by
  unfold read
  constructor
  · intro h
    split at h
    · cases h
    · next ws hwords =>
      split at h
      · cases h
      · next q hq =>
        obtain ⟨given, left, r, hgives, happly, rfl⟩ := exists_of_readWords_eq_ok hq
        obtain ⟨hallowed, rfl⟩ := applyAll_eq_ok_iff.mp happly
        split at h
        · cases h
        · next hschema =>
          split at h
          · next hleft =>
            obtain rfl := Except.ok.inj h
            obtain rfl : left = [] := List.isEmpty_iff.mp hleft
            have hsome : (lastOf .schema given).isSome = true :=
              Option.isNone_eq_false_iff.mp (Bool.eq_false_iff.mpr hschema)
            exact .intro hwords hgives hallowed ((isSome_lastOf .schema given).symm.trans hsome)
          · cases h
  · rintro @⟨ws, given, hwords, hgives, hallowed, hschema⟩
    have hread : readWords c ws {} = .ok (Progress.leaving { arguments := asked given } []) := by
      have happend := readWords_append hgives [] {}
      rwa [List.append_nil, applyAll_eq_ok_iff.mpr ⟨hallowed, rfl⟩] at happend
    have hsome : (asked given).schema.isNone = false :=
      Option.isNone_eq_false_iff.mpr ((isSome_lastOf .schema given).trans hschema)
    simp only [hwords, hread, Progress.leaving, hsome]
    rfl

/-- **An option that makes reading stop** does so exactly if it is come to. -/
theorem read_eq_error_iff (hstop : stop.flag? = some f) :
    read c words = .error stop ↔ Reaches c words f := by
  have hnot : ∀ reason, stop ≠ .refused reason := by
    rintro reason rfl
    cases hstop
  unfold read
  constructor
  · intro h
    split at h
    · next reason _ => exact absurd (Except.error.inj h).symm (hnot reason)
    · next ws hwords =>
      split at h
      · next stop' hq =>
        obtain rfl : stop' = stop := Except.error.inj h
        rcases exists_of_readWords_eq_error hq with ⟨reason, rfl⟩ | hfound
        · exact absurd rfl (hnot reason)
        · obtain ⟨before, rest, given, left, rfl, hgives, happly⟩ := hfound
          obtain ⟨given, g, value, more, q, rfl, hbefore, hlast⟩ :=
            Progress.exists_of_applyAll_eq_error happly
          obtain rfl := (apply_eq_error_iff hstop).mp hlast
          exact .intro hwords hgives (applyAll_eq_ok_iff.mp hbefore).1
      · split at h
        · exact absurd (Except.error.inj h).symm (hnot _)
        · split at h
          · cases h
          · exact absurd (Except.error.inj h).symm (hnot _)
  · rintro @⟨before, rest, given, more, value, left, hwords, hgives, hallowed⟩
    have hlast : (Progress.apply { arguments := asked given } f value) = .error stop :=
      (apply_eq_error_iff hstop).mpr rfl
    have happly : ({} : Progress).applyAll (given ++ (f, value) :: more) = .error stop := by
      rw [Progress.applyAll_append, applyAll_eq_ok_iff.mpr ⟨hallowed, rfl⟩]
      simp only [Except.bind, Progress.applyAll, hlast]
    have hread : readWords c (before ++ rest) {} = .error stop := by
      rw [readWords_append hgives, happly]
      rfl
    simp only [hwords, hread]

end Read

/-! ### Values in the newer convention -/

/-- Whether there is a text for an option, if it takes a value. -/
def IsFilled (e : Flag × Given) : Prop :=
  e.1.takesValue = true → ∃ text, e.2 = .text text

section Filled

variable {f : Flag} {effect : WordEffect}

theorem isFilled_nothing (h : f.takesValue = false) : IsFilled (f, .nothing) :=
  fun htakes => Bool.noConfusion (htakes.symm.trans h)

theorem isFilled_effectAlone (f : Flag) : ∀ e ∈ (effectAlone f).options, IsFilled e := by
  unfold effectAlone
  split
  · exact List.forall_mem_nil _
  · next htakes => exact List.forall_mem_singleton.mpr (isFilled_nothing (by simpa using htakes))

theorem isFilled_effectOfValue {cs : List Char} (h : effectOfValue .newer f cs = .ok effect) :
    ∀ e ∈ effect.options, IsFilled e := by
  unfold effectOfValue at h
  split at h
  · obtain rfl := Except.ok.inj h
    exact List.forall_mem_singleton.mpr fun _ => ⟨String.ofList cs, rfl⟩
  · cases h

/-- An option without a value before others needs nothing. -/
theorem isFilled_of_map_after {x : Except Refusal WordEffect} (hf : f.takesValue = false)
    (h : x.map (.after f) = .ok effect)
    (hfilled : ∀ {more}, x = .ok more → ∀ e ∈ more.options, IsFilled e) :
    ∀ e ∈ effect.options, IsFilled e := by
  cases x with
  | error reason => cases h
  | ok more =>
    obtain rfl := Except.ok.inj h
    exact List.forall_mem_cons.mpr ⟨isFilled_nothing hf, hfilled rfl⟩

theorem isFilled_effectOfLetters {cs : List Char} (h : effectOfLetters .newer f cs = .ok effect) :
    ∀ e ∈ effect.options, IsFilled e := by
  induction cs generalizing f effect with
  | nil =>
    obtain rfl := Except.ok.inj h
    exact isFilled_effectAlone f
  | cons letter rest ih =>
    rw [effectOfLetters] at h
    split at h
    · exact isFilled_effectOfValue h
    · next hnone =>
      have hf : f.takesValue = false := by
        simp only [Bool.or_eq_true, not_or] at hnone
        exact Bool.eq_false_iff.mpr hnone.1
      split at h
      · obtain rfl := Except.ok.inj h
        exact List.forall_mem_singleton.mpr (isFilled_nothing hf)
      · next g _ =>
        refine isFilled_of_map_after hf h fun hmore => ?_
        split at hmore
        · exact isFilled_effectOfValue hmore
        · exact ih hmore

theorem isFilled_effectOf {single : Bool} {attached : Attached}
    (h : effectOf .newer f single attached = .ok effect) : ∀ e ∈ effect.options, IsFilled e := by
  cases attached with
  | nothing =>
    obtain rfl := Except.ok.inj h
    exact isFilled_effectAlone f
  | behind cs => exact isFilled_effectOfLetters h
  | equals cs => exact isFilled_effectOfValue h

theorem Gives.isFilled {ws : List Word} {given : List (Flag × Given)} {left : List String}
    (h : Gives .newer ws given left) : ∀ e ∈ given, IsFilled e := by
  induction h with
  | nil => exact List.forall_mem_nil _
  | left _ _ ih => exact ih
  | alone heffect _ ih => exact List.forall_mem_append.mpr ⟨isFilled_effectOf heffect, ih⟩
  | @followed f g name value _ _ _ _ _ _ heffect _ ih =>
    have hvalue : ∀ e ∈ [(g, Given.text value)], IsFilled e :=
      List.forall_mem_singleton.mpr fun _ => ⟨value, rfl⟩
    exact List.forall_mem_append.mpr
      ⟨List.forall_mem_append.mpr ⟨isFilled_effectOf heffect, hvalue⟩, ih⟩

/-- **By the newer convention** there is a text for the schema and for every property to leave
out. -/
theorem Asks.exists_text {words : List String} {a : Arguments} (h : Asks .newer words a) :
    (∃ text, a.schema = some (.text text)) ∧ Given.nothing ∉ a.virtual := by
  obtain @⟨ws, given, hwords, hgives, hallowed, hschema⟩ := h
  have hfilled := hgives.isFilled
  refine ⟨?_, fun hnothing => ?_⟩
  · obtain ⟨value, hlast⟩ :=
      Option.isSome_iff_exists.mp ((isSome_lastOf .schema given).trans hschema)
    obtain ⟨e, hfound, rfl⟩ := Option.map_eq_some_iff.mp hlast
    have hmem : e ∈ given := List.mem_reverse.mp (List.mem_of_find?_eq_some hfound)
    have hflag : e.1 = .schema := by simpa using List.find?_some hfound
    obtain ⟨text, htext⟩ := hfilled e hmem (by rw [hflag]; rfl)
    exact ⟨text, by rw [asked, hlast, htext]⟩
  · obtain ⟨e, he, hvalue⟩ := List.mem_map.mp hnothing
    obtain ⟨hmem, hflag⟩ := List.mem_filter.mp he
    obtain ⟨text, htext⟩ := hfilled e hmem (by rw [of_decide_eq_true hflag]; rfl)
    cases htext.symm.trans hvalue

end Filled

end NestedTables.CommandLine
