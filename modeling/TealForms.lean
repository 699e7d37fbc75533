import TealForms.Main
import TealForms.Proofs.Allocations.Fresh
import TealForms.Proofs.Build.Settled
import TealForms.Proofs.Forms.History
import TealForms.Proofs.Node.Traversal
import TealForms.Proofs.Token.Spelling
import TealForms.Proofs.Build.Ledger
import TealForms.Proofs.Execution.Machine
import TealForms.Proofs.Execution.Structured
import TealForms.Proofs.Command.Emission
import TealForms.Proofs.Execution.Simulation
import TealForms.Proofs.Command.Compiled
import TealForms.Proofs.Execution.Equivalence
import TealForms.Proofs.Command.Height
import TealForms.Proofs.Command.Labels
import TealForms.Proofs.Command.Breaks
import TealForms.Proofs.Build.Failed
import TealForms.Proofs.Session.Calls
import TealForms.Proofs.Session.Labels
import TealForms.Proofs.Allocations.Slots
import TealForms.Proofs.Build.Effect
import TealForms.Proofs.Session.Extension
import TealForms.Proofs.Session.Scratch
import TealForms.Proofs.Node.Rules
import TealForms.Proofs.Session.Observed
import TealForms.Proofs.Command.Accesses
import TealForms.Proofs.Token.Layout
import TealForms.Proofs.Token.Scanning
import TealForms.Proofs.Forms.Comparison
import TealForms.Proofs.Node.Agreement
import TealForms.Proofs.Build.Agreement
import TealForms.Proofs.Build.Leniency
import TealForms.Proofs.Token.Marks
import TealForms.Proofs.Source.Reading
import TealForms.Proofs.Forms.Checks
import TealForms.Proofs.Forms.Grammar
import TealForms.Proofs.Build.Definitions
import TealForms.Proofs.Command.Unnamed
import TealForms.Proofs.Forms.Substitution
import TealForms.Proofs.Forms.Prefixes
import TealForms.Proofs.Forms.Acceptance
import TealForms.Proofs.Source.Failing
import TealForms.Proofs.Token.Interrupted
import TealForms.Proofs.Forms.Failures
import TealForms.Proofs.Forms.Passes
import TealForms.Proofs.Forms.Concatenation
import TealForms.Proofs.CommandLine.Delivery
import TealForms.Proofs.Node.View
import TealForms.Proofs.Build.View
import TealForms.Proofs.Forms.View
import TealForms.Proofs.Forms.Inert
import TealForms.Proofs.Build.Immediates
import TealForms.Proofs.Source.Pieces
import TealForms.Proofs.Source.Positions
import TealForms.Proofs.Source.Spans
import TealForms.Proofs.Source.Underlined
import TealForms.Proofs.Json.Scalars
import TealForms.Proofs.Json.Printed
import TealForms.Proofs.Table.Records
import TealForms.Proofs.Table.Printed
import TealForms.Proofs.Command.Listing
import TealForms.Proofs.Allocations.Log
import TealForms.Proofs.Session.Log
import TealForms.Proofs.Build.Twins
import TealForms.Proofs.Forms.Renaming
import TealForms.Proofs.Forms.Defined
import TealForms.Proofs.Forms.Reuse
import TealForms.Proofs.Command.Statements
import TealForms.Proofs.Allocations.Search
import TealForms.Proofs.Session.Numbers
import TealForms.Proofs.Token.Answers
