import FieldAudit.Main
import FieldAudit.Proofs.Usage.Recording
import FieldAudit.Proofs.Usage.Selected
import FieldAudit.Proofs.Scan.Usages
import FieldAudit.Proofs.Report.Join
import FieldAudit.Proofs.Report.Exact
import FieldAudit.Proofs.GraphQL.Layout
import FieldAudit.Proofs.GraphQL.Readers
import FieldAudit.Proofs.GraphQL.Written
import FieldAudit.Proofs.GraphQL.Accepted
import FieldAudit.Proofs.GraphQL.Parsed
import FieldAudit.Proofs.Text.Pieces
import FieldAudit.Proofs.Snippet.Pairing
import FieldAudit.Proofs.Scan.Written
import FieldAudit.Proofs.Path
import FieldAudit.Proofs.FileTree
import FieldAudit.Proofs.Report.Stored
import FieldAudit.Proofs.Sweep.Requests
import FieldAudit.Proofs.Sweep.Atomicity
import FieldAudit.Proofs.Attempt
import FieldAudit.Proofs.Json.Part
import FieldAudit.Proofs.Settings
import FieldAudit.Proofs.Exchange.Answer
import FieldAudit.Proofs.Introspection.Built
import FieldAudit.Proofs.Introspection.Blemish
import FieldAudit.Proofs.Exchange.Fetched
import FieldAudit.Proofs.Introspection.Listing
import FieldAudit.Proofs.Sweep.Findings
import FieldAudit.Proofs.Sweep.Used
import FieldAudit.Proofs.Glob.Found
import FieldAudit.Proofs.Scan.Accounts
import FieldAudit.Proofs.Sweep.Patterns
import FieldAudit.Proofs.Environment
import FieldAudit.Proofs.Program.Status
import FieldAudit.Proofs.Glob.Order
import FieldAudit.Proofs.FileTree.Alike
import FieldAudit.Proofs.FileTree.Normal
import FieldAudit.Proofs.Glob.Along
import FieldAudit.Proofs.Report.Kept
import FieldAudit.Proofs.Report.Stamped
import FieldAudit.Proofs.Sweep.Again
import FieldAudit.Proofs.Sweep.Verbose
import FieldAudit.Proofs.Sweep.Totals
import FieldAudit.Proofs.Text.Lossy
import FieldAudit.Proofs.Scan.Bytes
import FieldAudit.Proofs.Scan.Wrappers
import FieldAudit.Proofs.Introspection.Bare
import FieldAudit.Proofs.Introspection.Wrappers
import FieldAudit.Proofs.Sweep.Wrappers
import FieldAudit.Proofs.Glob.Braces
import FieldAudit.Proofs.Glob.Choices
import FieldAudit.Proofs.Glob.Inert
import FieldAudit.Proofs.Glob.Matched
import FieldAudit.Proofs.Glob.Union
import FieldAudit.Proofs.Glob.Place
import FieldAudit.Proofs.Glob.Relocated
import FieldAudit.Proofs.Scan.Append
import FieldAudit.Proofs.Introspection.Declared
import FieldAudit.Proofs.Sweep.Listed
import FieldAudit.Proofs.Json.Spelled
import FieldAudit.Proofs.Json.Decoded
import FieldAudit.Proofs.Text.Decoded
import FieldAudit.Proofs.Report.Decoded
import FieldAudit.Proofs.Scan.Replaced
import FieldAudit.Proofs.Report.Closed
import FieldAudit.Proofs.GraphQL.Brackets
import FieldAudit.Proofs.GraphQL.Agreement
import FieldAudit.Proofs.GraphQL.Productions
import FieldAudit.Proofs.GraphQL.Documents
import FieldAudit.Proofs.Scan.Snippets
import FieldAudit.Proofs.Glob.Settled
import FieldAudit.Proofs.Usage.Discipline
import FieldAudit.Proofs.Report.Calendar
import FieldAudit.Proofs.Report.StampForm
import FieldAudit.Proofs.Report.Instants
