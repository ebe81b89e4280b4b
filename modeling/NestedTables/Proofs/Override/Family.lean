import Mathlib.Data.List.Basic
import Mathlib.Data.List.Induction
import NestedTables.Override.Family

/-!
# What happens to findings in a family of reports

Steps are done on the reports of a family, one after another. A step adds findings to the report
that it is done on, and leaves all others alone (`Family.report_act`). So a report holds what the
steps on it have added, in their order (`Family.items_run`); and what a merge adds is what the other
report held at that time, which is why the family after the earlier steps is part of the statement.
A report that is merged into itself is no special case.

A report is taken apart by severity, and refused for the first of its errors
(`Report.refusal?_eq_some`).
-/

namespace NestedTables

/-! ### Reports by severity -/

theorem Finding.isWarning_eq (f : Finding) : f.isWarning = !f.isError := by
  rw [isWarning, isError]
  cases f.severity <;> rfl

/-- What is said of an error when there are so many more. -/
def Finding.announced (first : Finding) : Nat → String
  | 0 => first.message
  | further => s!"{first.message} [and {further} more error(s)]"

/-- The reason that an error gives for refusing a schema when there are so many more. -/
def Finding.reason (first : Finding) (further : Nat) : SchemaError :=
  if first.code = "JOIN_THROUGH_UNKNOWN_TABLE" then
    .joinTable (first.announced further) first.pointer
  else .override (first.announced further) first.pointer

namespace Report

variable (r : Report)

/-- Every finding is an error or a warning. -/
theorem warnings_eq : r.warnings = r.items.filter fun f => !f.isError := by
  rw [warnings, funext Finding.isWarning_eq]

theorem length_errors : r.errors.length = r.errorCount :=
  List.countP_eq_length_filter.symm

theorem length_warnings : r.warnings.length = r.warningCount :=
  List.countP_eq_length_filter.symm

/-- **The errors and the warnings** are all findings. -/
theorem errors_append_warnings_perm : (r.errors ++ r.warnings).Perm r.items := by
  rw [warnings_eq]
  exact List.filter_append_perm _ _

theorem size_eq : r.size = r.errorCount + r.warningCount := by
  rw [size, ← r.errors_append_warnings_perm.length_eq, List.length_append, length_errors,
    length_warnings]

theorem isValid_iff_errorCount : r.isValid = true ↔ r.errorCount = 0 := by
  rw [errorCount, List.countP_eq_zero, isValid, hasErrors]
  simp

/-! ### The first error -/

theorem refusal?_of_errors {first : Finding} {others : List Finding}
    (h : r.errors = first :: others) : r.refusal? = some (first.reason others.length) := by
  have hdetail : (if others.isEmpty then first.message
      else s!"{first.message} [and {others.length} more error(s)]") =
        first.announced others.length := by
    cases others <;> rfl
  rw [refusal?, h]
  simp only [hdetail]
  rfl

/-- A report is refused when it has errors. -/
theorem refusal?_eq_none : r.refusal? = none ↔ r.errorCount = 0 := by
  rw [← length_errors, List.length_eq_zero_iff]
  cases herrors : r.errors with
  | nil => simp [refusal?, herrors]
  | cons first others => simp [r.refusal?_of_errors herrors]

/-- **The first error is the reason.** Only warnings stand before it. -/
theorem refusal?_eq_some (h : r.errorCount ≠ 0) :
    ∃ before first after, r.items = before ++ first :: after ∧
      (∀ f ∈ before, f.severity = .warning) ∧ first.severity = .error ∧
        r.refusal? = some (first.reason (r.errorCount - 1)) := by
  cases herrors : r.errors with
  | nil => exact absurd (by rw [← length_errors, herrors, List.length_nil]) h
  | cons first others =>
    obtain ⟨before, after, hitems, hbefore, hfirst, -⟩ := List.filter_eq_cons_iff.mp herrors
    refine ⟨before, first, after, hitems, fun f hf => ?_, of_decide_eq_true hfirst, ?_⟩
    · have hwarning : f.isWarning = true := by
        rw [Finding.isWarning_eq, Bool.eq_false_iff.mpr (hbefore f hf), Bool.not_false]
      exact of_decide_eq_true hwarning
    · rw [r.refusal?_of_errors herrors, ← length_errors, herrors, List.length_cons,
        Nat.add_sub_cancel]

end Report

/-! ### Steps on a family -/

namespace Family

/-- What a step adds to the report that it is done on. -/
def Step.added (family : Family) : Step → List Finding
  | .addError code message context => [⟨.error, code, message, context⟩]
  | .addWarning code message context => [⟨.warning, code, message, context⟩]
  | .merge source => (family.report source).items

/-- Does steps one after another, each on the report of a name. -/
def run (family : Family) (steps : List (String × Step)) : Family :=
  steps.foldl (fun family s => family.act s.1 s.2) family

variable (family : Family) (steps : List (String × Step)) (on name : String) (step : Step)

theorem Step.items_result (r : Report) :
    (step.result family r).items = r.items ++ step.added family := by
  cases step <;> rfl

/-- **A step adds to the report that it is done on**, and to no other. -/
theorem report_act : (family.act on step).report name =
    if on = name then ⟨(family.report name).items ++ step.added family⟩
    else family.report name := by
  rw [report, act, Entries.get?_put]
  split
  · next h =>
    rw [Option.getD_some, ← h, ← Step.items_result]
  · rfl

theorem run_append_singleton :
    family.run (steps ++ [(on, step)]) = (family.run steps).act on step := by
  simp [run]

/-- **A report holds what the steps on it have added**, each of them at its time. -/
theorem items_run : ((family.run steps).report name).items = (family.report name).items ++
    steps.zipIdx.flatMap fun s =>
      if s.1.1 = name then s.1.2.added (family.run (steps.take s.2)) else [] := by
  induction steps using List.reverseRecOn with
  | nil => exact (List.append_nil _).symm
  | append_singleton steps s ih =>
    obtain ⟨on, step⟩ := s
    -- the earlier steps come as early in the longer list
    have htake : ∀ s ∈ steps.zipIdx, (steps ++ [(on, step)]).take s.2 = steps.take s.2 := by
      rintro ⟨s, i⟩ hs
      obtain ⟨hi, -⟩ := List.mem_zipIdx_iff_getElem?.mp hs |> List.getElem?_eq_some_iff.mp
      exact List.take_append_of_le_length (Nat.le_of_lt hi)
    have hearlier : (steps.zipIdx.flatMap fun s => if s.1.1 = name then
          s.1.2.added (family.run ((steps ++ [(on, step)]).take s.2)) else []) =
        steps.zipIdx.flatMap fun s =>
          if s.1.1 = name then s.1.2.added (family.run (steps.take s.2)) else [] :=
      List.flatMap_congr fun s hs => by rw [htake s hs]
    rw [run_append_singleton, report_act, List.zipIdx_append, List.flatMap_append, hearlier,
      ← List.append_assoc, ← ih]
    simp only [List.zipIdx_singleton, List.flatMap_cons, List.flatMap_nil, List.append_nil,
      Nat.zero_add, List.take_left]
    split
    · rfl
    · exact (List.append_nil _).symm

end Family

/-- **Findings are neither lost nor reordered**, whatever is done to the reports of a family. A
report holds, after what it held at first, what the steps on it have added at their times, and a
step on another report leaves it as it is. Its errors and its warnings are all of its findings, each
kind in their order. It is refused exactly when there is an error, for the first one, and with the
number of the others. -/
theorem findings_of_run (family : Family) (steps : List (String × Family.Step)) (name : String) :
    let before (n : Nat) := family.run (steps.take n)
    let r := (family.run steps).report name
    (r.items = (family.report name).items ++ steps.zipIdx.flatMap fun s =>
      if s.1.1 = name then s.1.2.added (before s.2) else []) ∧
    (∀ n on step, steps[n]? = some (on, step) → on ≠ name →
      (before (n + 1)).report name = (before n).report name) ∧
    r.size = r.errorCount + r.warningCount ∧
    (r.isValid = true ↔ r.errorCount = 0) ∧
    (r.errors.Sublist r.items ∧ r.warnings.Sublist r.items ∧
      (r.errors ++ r.warnings).Perm r.items ∧ (∀ f ∈ r.errors, f.severity = .error) ∧
        ∀ f ∈ r.warnings, f.severity = .warning) ∧
    (r.refusal? = none ↔ r.errorCount = 0) ∧
    (r.errorCount ≠ 0 → ∃ earlier first later, r.items = earlier ++ first :: later ∧
      (∀ f ∈ earlier, f.severity = .warning) ∧ first.severity = .error ∧
        r.refusal? = some (first.reason (r.errorCount - 1))) := by
  intro before r
  refine ⟨family.items_run steps name, fun n on step hstep hne => ?_, r.size_eq,
    r.isValid_iff_errorCount, ⟨List.filter_sublist, List.filter_sublist,
      r.errors_append_warnings_perm, fun f hf => ?_, fun f hf => ?_⟩, r.refusal?_eq_none,
    r.refusal?_eq_some⟩
  · have htake : steps.take (n + 1) = steps.take n ++ [(on, step)] := by
      rw [List.take_add_one, hstep, Option.toList_some]
    change (family.run (steps.take (n + 1))).report name = _
    rw [htake, Family.run_append_singleton, Family.report_act, if_neg hne]
  · exact of_decide_eq_true (List.mem_filter.mp hf).2
  · exact of_decide_eq_true (List.mem_filter.mp hf).2

/-- A report with a warning and an error is merged into itself and then into an empty one, which
goes on with an error of its own. The first report stays as it was, and the second one is refused
for the error that came first, with two more. -/
theorem findings_of_run_twice :
    let steps : List (String × Family.Step) :=
      [("a", .addWarning "JOIN_ANNOTATION_IGNORED" "ignored" []),
        ("a", .addError "JOIN_THROUGH_UNKNOWN_TABLE" "no such table" []),
        ("a", .merge "a"), ("b", .merge "a"), ("b", .addError "ANNOTATION_NOT_STRING" "no text" [])]
    let r := (Family.run [] steps).report "b"
    (Family.run [] (steps.take 5)).report "a" = (Family.run [] (steps.take 4)).report "a" ∧
      r.items.map Finding.message =
        ["ignored", "no such table", "ignored", "no such table", "no text"] ∧
      r.errorCount = 3 ∧ ∃ earlier first later, r.items = earlier ++ first :: later ∧
        (∀ f ∈ earlier, f.severity = .warning) ∧ first.severity = .error ∧
          r.refusal? = some (first.reason 2) := by
  intro steps r
  have hcount : r.errorCount = 3 := by decide
  exact ⟨(findings_of_run [] steps "a").2.1 4 "b" _ rfl (by decide), by decide, hcount,
    (findings_of_run [] steps "b").2.2.2.2.2.2 (hcount ▸ by decide)⟩

end NestedTables
