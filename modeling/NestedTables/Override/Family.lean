import NestedTables.Override.Finding

/-!
# Families of reports

Several reports can be kept at once, each under a name. A report is empty until something is
added to it. A `Step` changes the one report that it is done on; merging reads another report
as it is at that time, and that may be the same one.
-/

namespace NestedTables

/-- Reports by their names. -/
abbrev Family := Entries String Report

/-- What can be done to a report of a family. -/
inductive Family.Step
  | addError (code message : String) (context : Fields)
  | addWarning (code message : String) (context : Fields)
  /-- Adds the findings of the report of a name. -/
  | merge (source : String)
deriving Repr

namespace Family

/-- The report of a name. -/
def report (family : Family) (name : String) : Report :=
  (family.get? name).getD {}

/-- What a step makes of a report of a family. -/
def Step.result (family : Family) (r : Report) : Step → Report
  | .addError code message context => r.addError code message context
  | .addWarning code message context => r.addWarning code message context
  | .merge source => r.merge (family.report source)

/-- Does a step on the report of a name. -/
def act (family : Family) (name : String) (step : Step) : Family :=
  family.put name (step.result family (family.report name))

end Family

end NestedTables
