import NestedTables.Compile.Walk
import NestedTables.Override.Rules

/-!
# Compiling a schema

A compilation first checks the overrides of the whole schema, and goes on only if none of them
is at fault; then it walks the schema and registers its tables. So a fault in an override
never leaves a table behind.

`compile` tells everything that can be seen of a compilation: its result, which is the handles
by model name or a failure; the tables that were registered, as they are at the end; and the
log. The tables and the log are there after a failure as well.
-/

namespace NestedTables

/-- What can be seen of a compilation. -/
structure Outcome (η ε : Type) where
  result : Except (Failure ε) (Entries String η)
  /-- The registered tables, in the order of registration. -/
  tables : List (Descriptor η) := []
  log : List Event := []

variable {η ε : Type}

/-- Walks a schema whose overrides have been checked. -/
def walkSchema (binder : Binder η ε) (settings : Settings) (schema : Fields)
    (log : List Event) : Except (Failure ε) (Visit η) × Registry η :=
  (Walk.visit ⟨settings, binder⟩ none none [] (Tree.ofFields schema)).run.run { log := log }

/-- Compiles the root node of a schema. -/
def compileFields (binder : Binder η ε) (settings : Settings) (schema : Fields) :
    Outcome η ε :=
  let report := Override.checkAll settings schema
  let log := Override.checkEvents settings schema ++ report.warningEvents
  match report.refusal? with
  | some e => { result := .error (.schema e), log := log }
  | none =>
    match walkSchema binder settings schema log with
    | (.error e, registry) =>
      { result := .error e, tables := registry.descriptors, log := registry.log }
    | (.ok _, registry) =>
      { result := .ok registry.models
        tables := registry.descriptors
        log := registry.log ++ [.compiled registry.drafts.length registry.models.length] }

/-- Compiles a schema. A value that is no mapping has nothing to compile. -/
def compile (binder : Binder η ε) (settings : Settings) (schema : Value) : Outcome η ε :=
  match schema with
  | .map fields => compileFields binder settings fields
  | _ => { result := .ok [], log := [.nothingToCompile] }

end NestedTables
