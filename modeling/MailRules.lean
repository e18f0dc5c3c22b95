import MailRules.Assignment
import MailRules.Assignment.Table
import MailRules.Native.Filter
import MailRules.Compile
import MailRules.Condition
import MailRules.Condition.Json
import MailRules.Condition.Matcher
import MailRules.Condition.Simplify
import MailRules.Condition.Split
import MailRules.Config
import MailRules.Config.Error
import MailRules.Config.Reader
import MailRules.Config.Resolve
import MailRules.Config.Writer
import MailRules.Decimal
import MailRules.Document.Defect
import MailRules.Document.Number
import MailRules.Document.Reader
import MailRules.Document.Writer
import MailRules.Failure
import MailRules.Json
import MailRules.Json.Reader
import MailRules.Json.Text
import MailRules.Label
import MailRules.Label.Diff
import MailRules.Log.Level
import MailRules.Log.Record
import MailRules.Message
import MailRules.Metrics
import MailRules.Native.Diff
import MailRules.Native.Document
import MailRules.Native.Effect
import MailRules.Native.Error
import MailRules.Native.Import
import MailRules.Native.Layout
import MailRules.Native.Merge
import MailRules.Native.Render
import MailRules.Native.Search
import MailRules.Settings
import MailRules.Text.Whitespace
import MailRules.Text.Digits
import MailRules.Text.Lower
import MailRules.Text.Matching
import MailRules.Text.Quoted
import MailRules.Text.Sha256
import MailRules.Text.Timestamp
import MailRules.Text.UnifiedDiff
import MailRules.Trial
import MailRules.Proofs.Condition.Meaning
import MailRules.Proofs.Condition.SameMeaning
import MailRules.Proofs.Condition.Coverage
import MailRules.Proofs.Trial.Effects
import MailRules.Proofs.Trial.Pieces
import MailRules.Proofs.Condition.NormalForm
import MailRules.Proofs.Condition.CanonicalOrder
import MailRules.Proofs.Native.SearchText
import MailRules.Proofs.Native.Unambiguous
import MailRules.Proofs.Condition.FixedPoint
import MailRules.Proofs.Compile.Stages
import MailRules.Proofs.Native.Changes
import MailRules.Proofs.Native.Imported
import MailRules.Proofs.Native.RoundTrip
import MailRules.Proofs.Condition.WithinLimit
import MailRules.Proofs.Assignment.Search
import MailRules.Proofs.Assignment.Matching
import MailRules.Proofs.Assignment.Potentials
import MailRules.Proofs.Assignment.LeastCost
import MailRules.Proofs.Native.Reordering
import MailRules.Proofs.Json.ReadBack
import MailRules.Proofs.Native.SameContents
import MailRules.Proofs.Condition.Pieces
import MailRules.Proofs.Native.Writable
import MailRules.Proofs.Compile.Complete
import MailRules.Proofs.Native.Categorized
import MailRules.Proofs.Trial.RuleOrder
import MailRules.Proofs.Config.Expression
import MailRules.Proofs.Config.Grammar
import MailRules.Proofs.Config.Inlining
import MailRules.Proofs.Sorting
import MailRules.Proofs.Label.Changes
import MailRules.Proofs.Config.Reported
import MailRules.Proofs.Trial.Skipped
import MailRules.Proofs.Text.Matching
import MailRules.Proofs.Text.UnifiedDiff
import MailRules.Proofs.Text.Lines
import MailRules.Proofs.Native.Layout
import MailRules.Proofs.Native.Rendering
import MailRules.Proofs.Native.Shown
import MailRules.Proofs.Native.Conjuncts
import MailRules.Proofs.Json.Canonical
import MailRules.Proofs.Document.Records
import MailRules.Proofs.Document.Respelled
import MailRules.Proofs.Config.ReadBack
import MailRules.Proofs.Label.Merged
import MailRules.Proofs.Assignment.Termination
import MailRules.Proofs.Condition.Escaping
import MailRules.Proofs.Native.Refused
import MailRules.Proofs.Condition.Conserved
import MailRules.Proofs.Condition.SiblingOrder
import MailRules.Proofs.Text.Brackets
import MailRules.Proofs.Native.Bracketed
import MailRules.Proofs.Native.Alignment
import MailRules.Proofs.Native.Places
