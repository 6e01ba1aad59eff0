import PathQuery.Condition.Validation
import PathQuery.Proofs.Scanning
import PathQuery.Segment.Validation
import PathQuery.Session
import PathQuery.Settings.Origin
import PathQuery.Proofs.Trimming
import PathQuery.Proofs.Reading
import PathQuery.Proofs.Outcome
import PathQuery.Proofs.Composition
import PathQuery.Proofs.Location
import PathQuery.Proofs.Decimal
import PathQuery.Proofs.RoundTrip
import PathQuery.Proofs.TextLiteral
import PathQuery.Proofs.Backtracking
import PathQuery.Proofs.ConditionGrammar
import PathQuery.Proofs.Admission
import PathQuery.Proofs.ComparisonOrder
import PathQuery.Proofs.Levels
import PathQuery.Proofs.Sequences
import PathQuery.Proofs.EntryOrder
import PathQuery.Proofs.Steps
import PathQuery.Proofs.Overrides
import PathQuery.Proofs.Configuration
import PathQuery.Proofs.SharedLevel
import PathQuery.Proofs.Tracing
import PathQuery.Proofs.NumberText
import PathQuery.Proofs.SearchLoop
import PathQuery.Proofs.WrittenConditions
import PathQuery.Proofs.QuotedTexts
import PathQuery.Proofs.ExactIntegers
import PathQuery.Proofs.Thresholds
import PathQuery.Proofs.EqualityFilters
import PathQuery.Proofs.Narrowing
import PathQuery.Proofs.KeySpellings
import PathQuery.Proofs.BracketIntegers
import PathQuery.Proofs.SegmentValues
import PathQuery.Proofs.Definitions
import PathQuery.Proofs.Tables
import PathQuery.Proofs.Resolution
import PathQuery.Proofs.Conversion
