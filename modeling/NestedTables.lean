import NestedTables.Text.Blank
import NestedTables.Text.DecimalDigit
import NestedTables.Text.Quoted
import NestedTables.Text.Utf8
import NestedTables.Text.Base64
import NestedTables.Decimal.Shortest
import NestedTables.Calendar.Iso
import NestedTables.Identifier
import NestedTables.Document.Display
import NestedTables.Json.Reader
import NestedTables.Json.Writer
import NestedTables.Schema.Context
import NestedTables.Schema.Tree
import NestedTables.Relational.Descriptor
import NestedTables.Override.Rules
import NestedTables.Override.Family
import NestedTables.Compile
import NestedTables.Binding
import NestedTables.Storage.SchemaFile
import NestedTables.CommandLine
import NestedTables.Main
import NestedTables.Proofs.Document.Keyed
import NestedTables.Proofs.Document.Pairs
import NestedTables.Proofs.Schema.Settings
import NestedTables.Proofs.Schema.Walked
import NestedTables.Proofs.Compile.Names
import NestedTables.Proofs.Override.Complaints
import NestedTables.Proofs.Override.Accepted
import NestedTables.Proofs.Schema.Region
import NestedTables.Proofs.Schema.Site
import NestedTables.Proofs.Schema.Place
import NestedTables.Proofs.Schema.Way
import NestedTables.Proofs.Schema.Pointer
import NestedTables.Proofs.Schema.Unvisited
import NestedTables.Proofs.Schema.Loose
import NestedTables.Proofs.Compile.Act
import NestedTables.Proofs.Compile.Ending
import NestedTables.Proofs.Compile.Replay
import NestedTables.Proofs.Compile.Descriptors
import NestedTables.Proofs.Compile.Outline
import NestedTables.Proofs.Compile.RelationNames
import NestedTables.Proofs.Compile.Results
import NestedTables.Proofs.Compile.Gathered
import NestedTables.Proofs.Compile.Handed
import NestedTables.Proofs.Compile.Asked
import NestedTables.Proofs.Compile.OwnColumns
import NestedTables.Proofs.Compile.Conclusion
import NestedTables.Proofs.Compile.Adequacy
import NestedTables.Proofs.Compile.Compilation
import NestedTables.Proofs.Compile.Failures
import NestedTables.Proofs.Compile.Relations
import NestedTables.Proofs.Compile.Collisions
import NestedTables.Proofs.Compile.Columns
import NestedTables.Proofs.Compile.Handover
import NestedTables.Proofs.Compile.Registration
import NestedTables.Proofs.Compile.Rewriting
import NestedTables.Proofs.Compile.Rewritten
import NestedTables.Proofs.Compile.Schemas
import NestedTables.Proofs.Compile.SharedColumns
import NestedTables.Proofs.Compile.DeclaredColumns
import NestedTables.Proofs.Document.Json
import NestedTables.Proofs.Record.Reading
import NestedTables.Proofs.Override.JoinTable
import NestedTables.Proofs.Override.WellAnnotated
import NestedTables.Proofs.Compile.TableNames
import NestedTables.Proofs.Compile.Targets
import NestedTables.Proofs.Compile.Graph
import NestedTables.Proofs.Binding.Built
import NestedTables.Proofs.Binding.Joins
import NestedTables.Proofs.Binding.Endpoints
import NestedTables.Proofs.Compile.Located
import NestedTables.Proofs.Compile.Copies
import NestedTables.Proofs.Schema.Reordered
import NestedTables.Proofs.Override.Reordered
import NestedTables.Proofs.Compile.Reordered
import NestedTables.Proofs.Compile.PropertyOrder
import NestedTables.Proofs.Compile.Mounted
import NestedTables.Proofs.Compile.Inline
import NestedTables.Proofs.Compile.Corresponds
import NestedTables.Proofs.Compile.Alike
import NestedTables.Proofs.Override.Findings
import NestedTables.Proofs.Override.Unheeded
import NestedTables.Proofs.Override.Renamed
import NestedTables.Proofs.Compile.Overrides
import NestedTables.Proofs.Decimal.ReadBack
import NestedTables.Proofs.Document.Exact
import NestedTables.Proofs.Json.Text
import NestedTables.Proofs.Json.Number
import NestedTables.Proofs.Json.RoundTrip
import NestedTables.Proofs.Json.Read
import NestedTables.Proofs.Compile.Exact
import NestedTables.Proofs.CommandLine.Models
import NestedTables.Proofs.Storage.SchemaFile
import NestedTables.Proofs.CommandLine.Run
import NestedTables.Proofs.Schema.Exact
import NestedTables.Proofs.Override.Writable
import NestedTables.Proofs.Compile.ExactTables
import NestedTables.Proofs.Binding.Assigned
import NestedTables.Proofs.Binding.Building
import NestedTables.Proofs.Binding.Prescribed
import NestedTables.Proofs.Binding.EarlyOrLate
import NestedTables.Proofs.Compile.Bare
import NestedTables.Proofs.Compile.Again
import NestedTables.Proofs.Compile.VirtualColumns
import NestedTables.Proofs.Compile.Logged
import NestedTables.Proofs.Compile.Unvisited
import NestedTables.Proofs.Compile.Unattached
import NestedTables.Proofs.Compile.Kept
import NestedTables.Proofs.Binding.Required
import NestedTables.Proofs.Override.Family
import NestedTables.Proofs.Schema.Visited
import NestedTables.Proofs.Compile.Pointers
import NestedTables.Proofs.Calendar.Iso
import NestedTables.Proofs.Binding.Defaults
import NestedTables.Proofs.Record.Mapping
import NestedTables.Proofs.Record.State
import NestedTables.Proofs.Relational.State
import NestedTables.Proofs.Compile.ReadAgain
import NestedTables.Proofs.Relational.Reference
import NestedTables.Proofs.Binding.InStep
import NestedTables.Proofs.CommandLine.Understood
import NestedTables.Proofs.CommandLine.Exits
