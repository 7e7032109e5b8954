import SymbolAtlas.Config
import SymbolAtlas.Decimal.Digits
import SymbolAtlas.Decimal.Shortest
import SymbolAtlas.Event
import SymbolAtlas.Files.Fault
import SymbolAtlas.Files.FileSystem
import SymbolAtlas.Files.FileTree
import SymbolAtlas.Files.PathName
import SymbolAtlas.Files.PositionIndex
import SymbolAtlas.Json.Fault
import SymbolAtlas.Json.Lexeme
import SymbolAtlas.Json.Reader
import SymbolAtlas.Json.Record
import SymbolAtlas.Json.Value
import SymbolAtlas.Json.Writer
import SymbolAtlas.Persist
import SymbolAtlas.Repo.Uri
import SymbolAtlas.Span.Basic
import SymbolAtlas.Span.Conversion
import SymbolAtlas.Span.Listing
import SymbolAtlas.Span.Normalize
import SymbolAtlas.Span.Order
import SymbolAtlas.Text.Blank
import SymbolAtlas.Text.Quoted
import SymbolAtlas.Text.Segments
import SymbolAtlas.Text.Unprintable
import SymbolAtlas.Text.Utf8
import SymbolAtlas.Unit.Registry
import SymbolAtlas.Unit.SourceUnit
import SymbolAtlas.Proofs.Text.Splitting
import SymbolAtlas.Proofs.Text.Sequence
import SymbolAtlas.Proofs.Text.Decoding
import SymbolAtlas.Proofs.Files.PositionTable
import SymbolAtlas.Proofs.Files.PositionLookup
import SymbolAtlas.Proofs.Span.Positions
import SymbolAtlas.Proofs.Span.Snapshot
import SymbolAtlas.Proofs.Span.CharacterRange
import SymbolAtlas.Proofs.Span.CanonicalOrder
import SymbolAtlas.Proofs.Span.Normalization
import SymbolAtlas.Proofs.Span.EmissionOrder
import SymbolAtlas.Proofs.Span.Traversal
import SymbolAtlas.Proofs.Span.FirstLook
import SymbolAtlas.Proofs.Span.SortedConversion
import SymbolAtlas.Proofs.Unit.ByteAccuracy
import SymbolAtlas.Proofs.Repo.Cleaning
import SymbolAtlas.Proofs.Repo.Form
import SymbolAtlas.Proofs.Repo.Settling
import SymbolAtlas.Proofs.Repo.Canonical
import SymbolAtlas.Proofs.Repo.PathText
import SymbolAtlas.Proofs.Repo.Spelling
import SymbolAtlas.Proofs.Span.Outcome
import SymbolAtlas.Proofs.Span.Visits
import SymbolAtlas.Proofs.Span.FirstVisits
import SymbolAtlas.Proofs.Span.Accounting
import SymbolAtlas.Proofs.Span.Trace
import SymbolAtlas.Proofs.Json.Lexemes
import SymbolAtlas.Proofs.Json.Parts
import SymbolAtlas.Proofs.Json.Values
import SymbolAtlas.Proofs.Json.Brackets
import SymbolAtlas.Proofs.Json.Held
import SymbolAtlas.Proofs.Json.Records
import SymbolAtlas.Proofs.Persist.Fields
import SymbolAtlas.Proofs.Persist.Kinds
import SymbolAtlas.Proofs.Persist.Lossless
import SymbolAtlas.Proofs.Span.Regrouping
import SymbolAtlas.Proofs.Span.OpaqueNotes
import SymbolAtlas.Proofs.Unit.Registrations
import SymbolAtlas.Proofs.Unit.FileInfluence
import SymbolAtlas.Proofs.Text.ByteOrder
import SymbolAtlas.Proofs.Span.StableArrangement
import SymbolAtlas.Proofs.Span.ComparedParts
import SymbolAtlas.Proofs.Span.OffsetSteps
import SymbolAtlas.Proofs.Files.Joining
import SymbolAtlas.Proofs.Files.Counting
import SymbolAtlas.Proofs.Repo.Resolution
import SymbolAtlas.Proofs.Repo.Repetition
import SymbolAtlas.Proofs.Repo.Range
import SymbolAtlas.Proofs.Repo.ShortAddress
import SymbolAtlas.Proofs.Files.UnderRoot
import SymbolAtlas.Proofs.Span.LeavingRoot
import SymbolAtlas.Proofs.Unit.Bookkeeping
import SymbolAtlas.Proofs.Json.Fronts
import SymbolAtlas.Proofs.Json.NumberFronts
import SymbolAtlas.Proofs.Json.Rounds
import SymbolAtlas.Proofs.Json.Outline
import SymbolAtlas.Proofs.Json.Settled
import SymbolAtlas.Proofs.Json.SettledRecords
import SymbolAtlas.Proofs.Json.ObjectText
import SymbolAtlas.Proofs.Json.Slots
import SymbolAtlas.Proofs.Json.MemberOrder
import SymbolAtlas.Proofs.Persist.Rearrangement
import SymbolAtlas.Proofs.Text.Separation
import SymbolAtlas.Proofs.Text.Quoting
import SymbolAtlas.Proofs.Span.ListedLines
import SymbolAtlas.Proofs.Unit.UnitIds
import SymbolAtlas.Proofs.Span.SharedIndices
import SymbolAtlas.Proofs.Files.SparseWidths
