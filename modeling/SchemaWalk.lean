import SchemaWalk.Arena.Basic
import SchemaWalk.Arena.Linked
import SchemaWalk.Decimal.Shortest
import SchemaWalk.Dictionary
import SchemaWalk.Document
import SchemaWalk.Header
import SchemaWalk.Introspection.Gate
import SchemaWalk.Introspection.Request
import SchemaWalk.Introspection.Response
import SchemaWalk.Json.Fault
import SchemaWalk.Json.Numeral
import SchemaWalk.Json.Printer
import SchemaWalk.Json.Reader
import SchemaWalk.Json.Record
import SchemaWalk.Json.Scan
import SchemaWalk.Json.Skip
import SchemaWalk.Json.StringReader
import SchemaWalk.Json.Value
import SchemaWalk.Literal
import SchemaWalk.Main
import SchemaWalk.Name
import SchemaWalk.Path
import SchemaWalk.Proofs.Dictionary
import SchemaWalk.Proofs.Document.ClosedForm
import SchemaWalk.Proofs.Document.Containment
import SchemaWalk.Proofs.Document.Enclosed
import SchemaWalk.Proofs.Document.Lines
import SchemaWalk.Proofs.Document.Literals
import SchemaWalk.Proofs.Document.Position
import SchemaWalk.Proofs.Document.Refusal
import SchemaWalk.Proofs.Header
import SchemaWalk.Proofs.Introspection.Decoding
import SchemaWalk.Proofs.Introspection.Listing
import SchemaWalk.Proofs.Introspection.Loading
import SchemaWalk.Proofs.Introspection.Records
import SchemaWalk.Proofs.Introspection.Spelling
import SchemaWalk.Proofs.Json.Accepted
import SchemaWalk.Proofs.Json.Admitting
import SchemaWalk.Proofs.Json.Doubles
import SchemaWalk.Proofs.Json.Forms
import SchemaWalk.Proofs.Json.Grammar
import SchemaWalk.Proofs.Json.IntegerText
import SchemaWalk.Proofs.Json.Layout
import SchemaWalk.Proofs.Json.Magnitude
import SchemaWalk.Proofs.Json.Numerals
import SchemaWalk.Proofs.Json.Reading
import SchemaWalk.Proofs.Json.RecordText
import SchemaWalk.Proofs.Json.Returning
import SchemaWalk.Proofs.Json.ScalarText
import SchemaWalk.Proofs.Json.Skipping
import SchemaWalk.Proofs.Json.StringSpelling
import SchemaWalk.Proofs.Json.StringText
import SchemaWalk.Proofs.Json.Typing
import SchemaWalk.Proofs.MapM
import SchemaWalk.Proofs.Path.Handles
import SchemaWalk.Proofs.Path.Invariant
import SchemaWalk.Proofs.Path.Retreat
import SchemaWalk.Proofs.Path.Run
import SchemaWalk.Proofs.Path.Spelling
import SchemaWalk.Proofs.Path.Stack
import SchemaWalk.Proofs.Schema.Closed
import SchemaWalk.Proofs.Schema.Collected
import SchemaWalk.Proofs.Schema.DeadEnd
import SchemaWalk.Proofs.Schema.LastDefinition
import SchemaWalk.Proofs.Schema.Onward
import SchemaWalk.Proofs.Schema.Shown
import SchemaWalk.Proofs.Shell.Climbing
import SchemaWalk.Proofs.Shell.Completing
import SchemaWalk.Proofs.Shell.Dotted
import SchemaWalk.Proofs.Shell.Forms
import SchemaWalk.Proofs.Shell.LineByLine
import SchemaWalk.Proofs.Shell.Movement
import SchemaWalk.Proofs.Shell.Narrowing
import SchemaWalk.Proofs.Shell.Reach
import SchemaWalk.Proofs.Shell.Retyping
import SchemaWalk.Proofs.Shell.Sending
import SchemaWalk.Proofs.Shell.Stepwise
import SchemaWalk.Proofs.Table
import SchemaWalk.Proofs.Text.ByteOrder
import SchemaWalk.Proofs.Text.Trimming
import SchemaWalk.Proofs.Traversal.Distinct
import SchemaWalk.Proofs.Traversal.Grammar
import SchemaWalk.Proofs.Traversal.Reread
import SchemaWalk.Proofs.Traversal.Segment
import SchemaWalk.Proofs.Traversal.Spelling
import SchemaWalk.Proofs.Traversal.StepText
import SchemaWalk.Resolution
import SchemaWalk.Schema.Basic
import SchemaWalk.Schema.Kind
import SchemaWalk.Schema.TypeDef
import SchemaWalk.Schema.TypeRef
import SchemaWalk.Shell.Command
import SchemaWalk.Shell.Completion
import SchemaWalk.Shell.Help
import SchemaWalk.Shell.LineLoop
import SchemaWalk.Shell.Options
import SchemaWalk.Shell.Outcome
import SchemaWalk.Shell.Session
import SchemaWalk.Step
import SchemaWalk.Table
import SchemaWalk.Text.Backspace
import SchemaWalk.Text.Blank
import SchemaWalk.Text.CharSet
import SchemaWalk.Text.Cluster
import SchemaWalk.Text.ClusterClass
import SchemaWalk.Text.Extending
import SchemaWalk.Text.Quoted
import SchemaWalk.Text.Split
import SchemaWalk.Text.Unprintable
import SchemaWalk.Text.Utf8
import SchemaWalk.Transport
import SchemaWalk.Traversal
