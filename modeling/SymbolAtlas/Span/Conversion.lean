import SymbolAtlas.Config
import SymbolAtlas.Event
import SymbolAtlas.Files.FileSystem
import SymbolAtlas.Files.PositionIndex
import SymbolAtlas.Span.Basic

/-! Analyzers that count characters give positions in code points; a conversion
pass rewrites them to bytes. A pass goes through batches span by span and
remembers what it learned of each file, so that a file is looked at once, however
many spans name it and whatever becomes of the file in the meantime.

Nothing ends a pass. A span without a file, or in a file that has no bytes to
index, keeps its positions; a position beyond the end of its file stops the
conversion of its span and is reported. Zero means that no position is set and is
never looked up. A pass that is run over its own result takes bytes for code
points, so a batch is converted once. -/
namespace SymbolAtlas
open PathName

/-- A span that was not converted, or not to its end. -/
structure Failure where
  path : String
  error : SpanError
  deriving DecidableEq, Repr

/-- What a pass did. -/
structure Report where
  /-- Positions that were rewritten. -/
  translated : Nat := 0
  /-- Spans left alone without a failure of their own. -/
  skipped : Nat := 0
  /-- Files that were read and indexed. -/
  indexedFiles : Nat := 0
  /-- In the order in which they happened. -/
  failures : List Failure := []
  deriving DecidableEq, Repr, Inhabited

/-- One thing that a pass does to the outside: it asks the file system, or logs. -/
inductive Act where
  | asksStatus (path : List Component)
  | reads (path : List Component)
  | logs (event : Event)
  deriving DecidableEq, Repr

/-- A pass at some moment. -/
structure Pass where
  /-- The directory that file names are relative to. -/
  root : List Char
  config : ConversionConfig := {}
  /-- What was learned of each path; nothing to index is remembered as well. -/
  known : List (List Component × Option PositionIndex) := []
  report : Report := {}
  /-- Everything done so far, in order. -/
  trace : List Act := []
  deriving Repr

namespace Pass

/-- Does one thing, which is recorded. -/
def act (p : Pass) (a : Act) : Pass := { p with trace := p.trace ++ [a] }

/-- Logs an event. -/
def log (p : Pass) (event : Event) : Pass := p.act (.logs event)

/-- The events logged so far. -/
def events (p : Pass) : List Event :=
  p.trace.filterMap fun
    | .logs event => some event
    | _ => none

/-- Leaves a span alone. -/
def skip (p : Pass) : Pass :=
  { p with report := { p.report with skipped := p.report.skipped + 1 } }

/-- Counts positions that were rewritten. -/
def countTranslated (p : Pass) (n : Nat) : Pass :=
  { p with report := { p.report with translated := p.report.translated + n } }

/-- Logs and reports that a span failed. -/
def fail (p : Pass) (path : List Char) (error : SpanError) : Pass :=
  let path := String.ofList path
  let p := p.log (.spanFailed path error)
  { p with report := { p.report with failures := p.report.failures ++ [⟨path, error⟩] } }

/-- Looks at a path for the first time: whether there is something to index, and
its index if so. -/
def build (p : Pass) (fs : FileSystem) (path : List Char) :
    Pass × Except SpanError (Option PositionIndex) :=
  let place := components path
  let name := String.ofList path
  let p := p.act (.asksStatus place)
  match fs.status place with
  | .missing =>
    let level := if p.config.warnMissingFiles then .warn else .debug
    (p.log (.missingFile level name), .ok none)
  | .notRegular => (p.log (.notRegular name), .ok none)
  | .failed fault => (p, .error (.unreadable fault))
  | .regular =>
    let p := p.act (.reads place)
    match fs.read place with
    | .error fault => (p, .error (.unreadable fault))
    | .ok content =>
      match PositionIndex.ofContent content with
      | .error error => (p, .error error)
      | .ok index =>
        let p := { p with report := { p.report with indexedFiles := p.report.indexedFiles + 1 } }
        (p.log (.indexed name index.charCount index.byteLength), .ok (some index))

/-- What is known of a place. -/
def snapshot? (p : Pass) (place : List Component) : Option (Option PositionIndex) :=
  (p.known.find? (·.1 = place)).map (·.2)

/-- What there is to index at a path. The first look is remembered; a failure is
remembered as nothing to index, so only the first look reports it. -/
def lookup (p : Pass) (fs : FileSystem) (path : List Char) :
    Pass × Except SpanError (Option PositionIndex) :=
  match p.snapshot? (components path) with
  | some found => (p, .ok found)
  | none =>
    let (p, built) := p.build fs path
    let found := match built with
      | .ok found => found
      | .error _ => none
    ({ p with known := (components path, found) :: p.known }, built)

end Pass

/-- One position in bytes, and how many positions that rewrote. -/
def PositionIndex.convert (index : PositionIndex) (position : UInt32) :
    Except SpanError (UInt32 × Nat) :=
  if position = 0 then .ok (0, 0) else (index.byteOffset position).map (·, 1)

/-- Both positions of an extent in bytes, the start first: the extent as far as it
was converted, how many positions were rewritten, and what stopped it. -/
def Extent.convert (index : PositionIndex) (e : Extent) : Extent × Nat × Option SpanError :=
  match index.convert e.start with
  | .error error => (e, 0, some error)
  | .ok (start, first) =>
    match index.convert e.stop with
    | .error error => ({ e with start }, first, some error)
    | .ok (stop, second) => ({ e with start, stop }, first + second, none)

namespace Pass

/-- Converts one extent. -/
def fix (p : Pass) (fs : FileSystem) (e : Extent) : Pass × Extent :=
  if e.file = "" then (p.skip, e)
  else
    let path := resolve p.root e.file.toList
    match p.lookup fs path with
    | (p, .error error) => (p.fail path error, e)
    | (p, .ok none) => (p.skip, e)
    | (p, .ok (some index)) =>
      let (e, translated, failed) := e.convert index
      let p := p.countTranslated translated
      match failed with
      | none => (p, e)
      | some error => (p.fail path error, e)

/-- Converts spans of one kind, in order. -/
def fixAll {α : Type} [Spanned α] (p : Pass) (fs : FileSystem) : List α → Pass × List α
  | [] => (p, [])
  | a :: rest =>
    let (p, e) := p.fix fs (Spanned.extent a)
    let (p, rest) := p.fixAll fs rest
    (p, Spanned.withExtent a e :: rest)

/-- Converts a batch: its definitions, then its references, then its documentation. -/
def feed (p : Pass) (fs : FileSystem) (batch : Batch) : Pass × Batch :=
  let (p, definitions) := p.fixAll fs batch.definitions
  let (p, references) := p.fixAll fs batch.references
  let (p, documentation) := p.fixAll fs batch.documentation
  (p, { definitions, references, documentation })

end Pass

/-- Converts a batch in a pass of its own, which is returned with its report and
its trace. -/
def Batch.convert (fs : FileSystem) (root : String) (config : ConversionConfig)
    (batch : Batch) : Pass × Batch :=
  ({ root := root.toList, config } : Pass).feed fs batch

end SymbolAtlas
