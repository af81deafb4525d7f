import Wordhoard.Arguments.Basic
import Wordhoard.Arguments.Reader
import Wordhoard.Collection.Basic
import Wordhoard.Collection.FreshKey
import Wordhoard.Collection.Json
import Wordhoard.Collection.Key
import Wordhoard.Collection.KeyMap
import Wordhoard.Command.Error
import Wordhoard.Command.Outcome
import Wordhoard.Command.Run
import Wordhoard.Command.Task
import Wordhoard.Command.Usage
import Wordhoard.Command.Words
import Wordhoard.Files.Disk
import Wordhoard.Files.Path
import Wordhoard.Files.Program
import Wordhoard.Grammar.Basic
import Wordhoard.Grammar.Expectation
import Wordhoard.Json.Basic
import Wordhoard.Json.Reader
import Wordhoard.Main
import Wordhoard.Markup.Basic
import Wordhoard.Pattern.Anchored
import Wordhoard.Pattern.Basic
import Wordhoard.Pattern.CharSet
import Wordhoard.Pattern.Reader
import Wordhoard.Query.Basic
import Wordhoard.Query.Error
import Wordhoard.Query.Evaluate
import Wordhoard.Query.Nesting
import Wordhoard.Query.Parser
import Wordhoard.Query.Token
import Wordhoard.Random
import Wordhoard.Report.Listing
import Wordhoard.Report.Pointer
import Wordhoard.Report.Style
import Wordhoard.Settings.Basic
import Wordhoard.Settings.File
import Wordhoard.Store.Basic
import Wordhoard.Store.Query
import Wordhoard.Store.Records
import Wordhoard.Text.Blank
import Wordhoard.Text.CaseFold
import Wordhoard.Text.Digits
import Wordhoard.Text.EditDistance
import Wordhoard.Text.Letter
import Wordhoard.Text.Lines
import Wordhoard.Text.Lowercase
import Wordhoard.Text.Position
import Wordhoard.Text.Ranges
import Wordhoard.Text.Read
import Wordhoard.Text.Search
import Wordhoard.Time.Calendar
import Wordhoard.Time.Instant
import Wordhoard.Time.Text
import Wordhoard.Token.Basic
import Wordhoard.Token.Rule
import Wordhoard.Toml.Basic
import Wordhoard.Toml.Quoted
import Wordhoard.Toml.Reader
import Wordhoard.Word.Basic
import Wordhoard.Word.Json
import Wordhoard.Word.TagSet
import Wordhoard.Proofs.Grammar.Mismatch
import Wordhoard.Proofs.Grammar.Heads
import Wordhoard.Proofs.Grammar.Summary
import Wordhoard.Proofs.Grammar.Acceptance
import Wordhoard.Proofs.Grammar.Ending
import Wordhoard.Proofs.Grammar.Parallel
import Wordhoard.Proofs.Markup.Pairing
import Wordhoard.Proofs.Grammar.Calls
import Wordhoard.Proofs.Query.Complete
import Wordhoard.Proofs.Query.Descent
import Wordhoard.Proofs.Query.Levels
import Wordhoard.Proofs.Query.Neat
import Wordhoard.Proofs.Query.Parse
import Wordhoard.Proofs.Query.Precision
import Wordhoard.Proofs.Query.Refusal
import Wordhoard.Proofs.Query.RoundTrip
import Wordhoard.Proofs.Token.Scan
import Wordhoard.Proofs.Json.Reading
import Wordhoard.Proofs.Collection.Json
import Wordhoard.Proofs.Files.Disk
import Wordhoard.Proofs.Files.Program
import Wordhoard.Proofs.Store.RoundTrip
import Wordhoard.Proofs.Store.History
import Wordhoard.Proofs.Store.Play
import Wordhoard.Proofs.Files.Ensures
import Wordhoard.Proofs.Files.Elsewhere
import Wordhoard.Proofs.Files.Place
import Wordhoard.Proofs.Pattern.Spans
import Wordhoard.Proofs.Query.Tags
import Wordhoard.Proofs.Store.Failure
import Wordhoard.Proofs.Store.Expressible
import Wordhoard.Proofs.Command.Run
import Wordhoard.Proofs.Command.Untouched
import Wordhoard.Proofs.Command.Expressible
import Wordhoard.Proofs.Store.Pushdown
import Wordhoard.Proofs.Files.Directories
import Wordhoard.Proofs.Query.Insertion
import Wordhoard.Proofs.Store.Kept
import Wordhoard.Proofs.Command.Insertion
import Wordhoard.Proofs.Files.Name
import Wordhoard.Proofs.Files.Stop
import Wordhoard.Proofs.Files.Together
import Wordhoard.Proofs.Store.Atomic
import Wordhoard.Proofs.Store.Apart
import Wordhoard.Proofs.Query.Selection
import Wordhoard.Proofs.Grammar.Moved
import Wordhoard.Proofs.Query.Moved
import Wordhoard.Proofs.Query.Occurrence
import Wordhoard.Proofs.Query.Sorting
import Wordhoard.Proofs.Query.Spacing
import Wordhoard.Proofs.Grammar.Steps
import Wordhoard.Proofs.Markup.Offence
import Wordhoard.Proofs.Files.Beside
import Wordhoard.Proofs.Store.Answer
import Wordhoard.Proofs.Command.Resolving
import Wordhoard.Proofs.Command.Edit
import Wordhoard.Proofs.Command.Review
import Wordhoard.Proofs.Command.Delete
import Wordhoard.Proofs.Collection.Key
import Wordhoard.Proofs.Markup.Insertion
import Wordhoard.Proofs.Text.Edits
import Wordhoard.Proofs.Text.EditDistance
import Wordhoard.Proofs.Query.Suggestion
import Wordhoard.Proofs.Grammar.Rows
import Wordhoard.Proofs.Grammar.Order
import Wordhoard.Proofs.Query.Uncut
import Wordhoard.Proofs.Query.Pointer
import Wordhoard.Proofs.Pattern.Anchoring
import Wordhoard.Proofs.Query.Age
import Wordhoard.Proofs.Report.Colors
import Wordhoard.Proofs.Command.Queried
import Wordhoard.Proofs.Settings.Change
