import Redactor.Library.Utf8
import Redactor.Library.Numerals
import Redactor.Library.Characters
import Redactor.Library.IpAddress
import Redactor.Library.Fallible
import Redactor.Library.LastPlace
import Redactor.Library.LastPlaceRuns
import Redactor.Library.LastPlaceParts
import Redactor.Library.LastPlaceTurns
import Redactor.Library.Lines
import Redactor.Library.Scanning
import Redactor.Library.Slices
import Redactor.Library.Replacing
import Redactor.Library.Outlines
import Redactor.Library.Occurrences
import Redactor.Library.Patterns
import Redactor.Library.Collecting
import Redactor.Library.Phrases
import Redactor.Library.VersionedStore
import Redactor.Library.KeyedStore
import Redactor.Library.ConditionalWrites
import Redactor.Types
import Redactor.Replace.Hints
import Redactor.Replace.Token
import Redactor.Session.Permit
import Redactor.Session.Crypto
import Redactor.Session.Separation
import Redactor.Session.Restore
import Redactor.Session.Streaming
import Redactor.Session.StreamingEquivalence
import Redactor.Session.NonInterference
import Redactor.Session.Validation
import Redactor.Session.Spelling
import Redactor.Replace.Candidates
import Redactor.Session.SinglePass
import Redactor.Session.Restorable
import Redactor.Session.StreamingBounds
import Redactor.Session.State
import Redactor.Session.Authorization
import Redactor.Replace.Processor
import Redactor.Replace.Allocation
import Redactor.Replace.Continuation
import Redactor.Replace.Rounds
import Redactor.Replace.Closure
import Redactor.Replace.RoundTrip
import Redactor.Replace.ScanIsolation
import Redactor.Replace.Copies
import Redactor.Replace.Issued
import Redactor.Replace.Room
import Redactor.Replace.History
import Redactor.Replace.Renaming
import Redactor.Replace.Bijection
import Redactor.Session.Cleartext
import Redactor.Input.Ranges
import Redactor.Input.RangeOrder
import Redactor.Input.GitDiff
import Redactor.Input.HunkLines
import Redactor.Detect.Overlap
import Redactor.Detect.Coverage
import Redactor.Detect.Engine
import Redactor.Detect.Validators
import Redactor.Detect.Scanners
import Redactor.Detect.Contextual
import Redactor.Detect.Custom
import Redactor.Detect.CustomStrings
import Redactor.Detect.Policy
import Redactor.Detect.Llm
import Redactor.Detect.LlmOrigins
import Redactor.Detect.MatchPositions
import Redactor.Detect.LlmAssignment
import Redactor.Detect.LlmRanges
import Redactor.Detect.CustomCoverage
import Redactor.Detect.CustomOrder
import Redactor.Detect.Scores
import Redactor.Detect.LlmCoverage
import Redactor.Redact.Artifact
import Redactor.Detect.Selection
import Redactor.Detect.Reordering
import Redactor.Detect.Tiling
import Redactor.Detect.NestedCoverage
import Redactor.Redact.Accounting
import Redactor.Detect.Origins
import Redactor.Detect.Propagation
import Redactor.Detect.Placement
import Redactor.Detect.HostGrammar
import Redactor.Detect.RunningText
import Redactor.Detect.PhoneGrammar
import Redactor.Detect.LineBreaks
import Redactor.Detect.CustomFiles
import Redactor.Detect.EnabledKinds
import Redactor.Redact.Frame
import Redactor.Redact.Cursor
import Redactor.Redact.MarkerFree
import Redactor.Redact.CopiedTokens
import Redactor.Redact.Secrecy
import Redactor.Redact.FragmentOrder
import Redactor.Redact.LineStructure
import Redactor.Service.Store
import Redactor.Service.Status
import Redactor.Service.Routes
import Redactor.Service.Requests
import Redactor.Service.Simulation
import Redactor.Service.Succession
import Redactor.Service.Runs
import Redactor.Service.Identifiers
import Redactor.Service.Handler
import Redactor.Service.Isolation
import Redactor.Service.Concurrency
import Redactor.Service.Accounts
import Redactor.Service.Refusals
import Redactor.Service.Restoring
import Redactor.Service.Substitution
import Redactor.Service.Tampering
import Redactor.Service.Stateless
import Redactor.Service.Expiry
import Redactor.Cli.Commands
import Redactor.Cli.Files
import Redactor.Cli.Restoring
