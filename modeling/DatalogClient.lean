import DatalogClient.Json.Printer
import DatalogClient.Json.Reader
import DatalogClient.Text.Blank
import DatalogClient.Text.Lowercase
import DatalogClient.Value.Shown
import DatalogClient.Value.Wire
import DatalogClient.Pull.Wire
import DatalogClient.Document.Wire
import DatalogClient.Document.Validation
import DatalogClient.Failure.Report
import DatalogClient.Calendar.Reader
import DatalogClient.Value.Encode
import DatalogClient.Schema.Catalog
import DatalogClient.Schema.Wire
import DatalogClient.Builder
import DatalogClient.Settings.File
import DatalogClient.Client
import DatalogClient.Program.Run
import DatalogClient.Main
import DatalogClient.Proofs.Json.Inside
import DatalogClient.Proofs.Json.Names
import DatalogClient.Proofs.Json.Reading
import DatalogClient.Proofs.Value.Canonical
import DatalogClient.Proofs.Document.Bindings
import DatalogClient.Proofs.Document.Clauses
import DatalogClient.Proofs.Document.Grammar
import DatalogClient.Proofs.Document.Normalization
import DatalogClient.Proofs.Document.Preservation
import DatalogClient.Proofs.Document.WellFormed
import DatalogClient.Proofs.Document.Report
import DatalogClient.Proofs.Document.Frames
import DatalogClient.Proofs.Document.Spelling
import DatalogClient.Proofs.Document.Rereading
import DatalogClient.Proofs.Pull.Rereading
import DatalogClient.Proofs.Document.Verdict
import DatalogClient.Proofs.Json.Location
import DatalogClient.Proofs.Outline.Locations
import DatalogClient.Proofs.Document.Parts
import DatalogClient.Proofs.Document.Whereabouts
import DatalogClient.Proofs.Builder.Workshop
import DatalogClient.Proofs.Program.Posting
import DatalogClient.Proofs.Program.Sessions
import DatalogClient.Proofs.Document.Texts
import DatalogClient.Proofs.Json.Lexemes
import DatalogClient.Proofs.Json.Nesting
import DatalogClient.Proofs.Json.Faults
import DatalogClient.Proofs.Document.Literals
import DatalogClient.Proofs.Document.Nesting
import DatalogClient.Proofs.Program.InStep
import DatalogClient.Proofs.Program.Secrecy
import DatalogClient.Proofs.Document.Options
import DatalogClient.Proofs.Json.Records
import DatalogClient.Proofs.Value.Integers
import DatalogClient.Proofs.Document.Integers
import DatalogClient.Proofs.Settings.Rebasing
import DatalogClient.Proofs.Document.Faithful
import DatalogClient.Proofs.Document.ObjectForm
import DatalogClient.Proofs.Pull.Readable
import DatalogClient.Proofs.Document.Readable
import DatalogClient.Proofs.Settings.Usability
import DatalogClient.Proofs.Client.Judgement
import DatalogClient.Proofs.Client.Blame
import DatalogClient.Proofs.Client.Wording
import DatalogClient.Proofs.Program.FurtherArgs
import DatalogClient.Proofs.Client.Answers
import DatalogClient.Proofs.Schema.Entries
import DatalogClient.Proofs.Schema.Searching
import DatalogClient.Proofs.Document.Listing
import DatalogClient.Proofs.Schema.Grouping
import DatalogClient.Proofs.Calendar.Days
import DatalogClient.Proofs.Text.Fields
import DatalogClient.Proofs.Calendar.Instants
import DatalogClient.Proofs.Outline.Balance
import DatalogClient.Proofs.Json.Continuation
import DatalogClient.Proofs.Json.Embedding
import DatalogClient.Proofs.Json.Spelling
import DatalogClient.Proofs.Value.Collapse
import DatalogClient.Proofs.Pull.Depth
