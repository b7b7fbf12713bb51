import NaslLint.Catalogue
import NaslLint.Check
import NaslLint.Checks.Calls
import NaslLint.Checks.Conditions
import NaslLint.Checks.Copyright
import NaslLint.Checks.Dates
import NaslLint.Checks.Dependencies
import NaslLint.Checks.DuplicateOid
import NaslLint.Checks.Grammar
import NaslLint.Checks.Layout
import NaslLint.Checks.Messages
import NaslLint.Checks.NoSolution
import NaslLint.Checks.Oid
import NaslLint.Checks.Placement
import NaslLint.Checks.Prose
import NaslLint.Checks.References
import NaslLint.Checks.Severity
import NaslLint.Checks.Solution
import NaslLint.Checks.Spelling
import NaslLint.Checks.Tags
import NaslLint.Command.History
import NaslLint.Command.Lint
import NaslLint.Command.Options
import NaslLint.Command.Renewal
import NaslLint.Date.Calendar
import NaslLint.Date.Format
import NaslLint.Discovery
import NaslLint.Examination
import NaslLint.Fault
import NaslLint.FileTree
import NaslLint.Finding
import NaslLint.Glob
import NaslLint.Main
import NaslLint.Path
import NaslLint.Pattern.Basic
import NaslLint.Pattern.Search
import NaslLint.Program
import NaslLint.Report.Line
import NaslLint.Report.Reporter
import NaslLint.Report.Results
import NaslLint.Run
import NaslLint.Script.Category
import NaslLint.Script.Tag
import NaslLint.Script.Url
import NaslLint.Text.Blank
import NaslLint.Text.Case
import NaslLint.Text.Digit
import NaslLint.Text.Encoding
import NaslLint.Text.Find
import NaslLint.Text.Lines
import NaslLint.Text.Range
import NaslLint.Text.Word
import NaslLint.Proofs.Pattern.Ends
import NaslLint.Proofs.Pattern.Search
import NaslLint.Proofs.Text
import NaslLint.Proofs.ProseTags
import NaslLint.Proofs.FileTree
import NaslLint.Proofs.FileTree.Appending
import NaslLint.Proofs.Pattern.Spelling
import NaslLint.Proofs.Repair
import NaslLint.Proofs.SharedReading
import NaslLint.Proofs.Accounting
import NaslLint.Proofs.Statement
import NaslLint.Proofs.RepairSafety
import NaslLint.Proofs.LostUpdate
import NaslLint.Proofs.Pattern.First
import NaslLint.Proofs.Date.Reading
import NaslLint.Proofs.Script.Calls
import NaslLint.Proofs.WrittenDates
import NaslLint.Proofs.Renewal
import NaslLint.Proofs.Path
import NaslLint.Proofs.OidAgreement
import NaslLint.Proofs.Pattern.All
import NaslLint.Proofs.Solution.Wording
import NaslLint.Proofs.Solution.NoneAvailable
import NaslLint.Proofs.VendorFamilies
import NaslLint.Proofs.MissingDependencies
import NaslLint.Proofs.ListedDependencies
import NaslLint.Proofs.EmptyEntries
import NaslLint.Proofs.CategoryOrder
import NaslLint.Proofs.Results
import NaslLint.Proofs.StatementRounds
import NaslLint.Proofs.Telling
import NaslLint.Proofs.Pattern.Edit
import NaslLint.Proofs.UpdatedScript
import NaslLint.Proofs.Rereading
import NaslLint.Proofs.RepairedRun
import NaslLint.Proofs.Interruption
import NaslLint.Proofs.RenewedDates
import NaslLint.Proofs.Pattern.Cut
import NaslLint.Proofs.Script.ProseCalls
import NaslLint.Proofs.Separators
import NaslLint.Proofs.BareResults
import NaslLint.Proofs.RootedChecks
import NaslLint.Proofs.Course
import NaslLint.Proofs.RootSpelling
import NaslLint.Proofs.DuplicateOids
import NaslLint.Proofs.MissingSolutions
import NaslLint.Proofs.CveReferences
import NaslLint.Proofs.Pattern.Meaning
import NaslLint.Proofs.Script.Parts
import NaslLint.Proofs.AddedLines
import NaslLint.Proofs.ForbiddenCharacters
import NaslLint.Proofs.Date.Fields
import NaslLint.Proofs.OrdinalDays
import NaslLint.Proofs.AcceptedOids
import NaslLint.Proofs.Date.Pictures
import NaslLint.Proofs.CreationDates
import NaslLint.Proofs.SpellingLines
import NaslLint.Proofs.SetterCalls
import NaslLint.Proofs.SeverityAgreement
import NaslLint.Proofs.MisplacedCompares
import NaslLint.Proofs.SpellingBatches
import NaslLint.Proofs.RootDirectory
import NaslLint.Proofs.Glob
import NaslLint.Proofs.Discovery
import NaslLint.Proofs.CategoryReading
