import SymbolAtlas.Span.Conversion
import SymbolAtlas.Span.Order
import SymbolAtlas.Text.Quoted
import SymbolAtlas.Unit.SourceUnit

/-! The registry knows an analyzer for each type of source unit, and what that
analyzer counts positions in. Running it for a unit gives a batch whose positions
are bytes and whose spans are in canonical order. -/
namespace SymbolAtlas

/-- An analyzer: it is given the files, the root of the checkout, the unit and the
repository, and reports a batch or a text of its own that says why it failed. -/
abbrev Grapher := FileSystem → String → SourceUnit → RepoConfig → Except String Batch

/-- What an analyzer counts positions in. -/
inductive OffsetUnits where
  | bytes
  | codepoints
  deriving DecidableEq, Repr, Inhabited

/-- An analyzer and what it counts positions in. -/
structure Registration where
  grapher : Grapher
  offsets : OffsetUnits

/-- Analyzers by unit type. The latest registration of a type is the one found. -/
structure Registry where
  registrations : List (String × Registration) := []
  config : ConversionConfig := {}

/-- Why a unit could not be analyzed. -/
inductive GraphError where
  | noGrapher (unitType : String)
  | grapherFailed (unit reason : String)
  deriving DecidableEq, Repr

/-- The message that a caller sees. -/
def GraphError.message : GraphError → String
  | .noGrapher unitType =>
    "no grapher registered for source unit type " ++ Text.quoted unitType
  | .grapherFailed unit reason => "graphing " ++ unit ++ " failed: " ++ reason

namespace Registry

/-- The registration of a unit type. -/
def find? (r : Registry) (unitType : String) : Option Registration :=
  (r.registrations.find? (·.1 = unitType)).map (·.2)

/-- Whether a unit type has an analyzer. -/
def isRegistered (r : Registry) (unitType : String) : Bool := (r.find? unitType).isSome

/-- What the analyzer of a unit type counts positions in. -/
def offsetUnits? (r : Registry) (unitType : String) : Option OffsetUnits :=
  (r.find? unitType).map (·.offsets)

/-- Registers an analyzer in place of the one that the type had, if any. -/
def register (r : Registry) (unitType : String) (offsets : OffsetUnits) (grapher : Grapher) :
    Registry × List Event :=
  ({ r with
      registrations := (unitType, ⟨grapher, offsets⟩) ::
        r.registrations.filter (·.1 ≠ unitType) },
    if r.isRegistered unitType then [.grapherReplaced unitType] else [])

/-- The registered unit types, in increasing order. -/
def unitTypes (r : Registry) : List String :=
  sortedBy compare (r.registrations.map (·.1))

/-- Analyzes a unit with the analyzer of its type. -/
def graph (r : Registry) (fs : FileSystem) (root : String) (unit : SourceUnit)
    (repo : RepoConfig) : Except GraphError Batch × List Event :=
  match r.find? unit.unitType with
  | none => (.error (.noGrapher unit.unitType), [])
  | some registration =>
    match registration.grapher fs root unit repo with
    | .error reason => (.error (.grapherFailed unit.id reason), [])
    | .ok batch =>
      match registration.offsets with
      | .bytes => (.ok batch.sorted, [])
      | .codepoints =>
        let (pass, batch) := batch.convert fs root r.config
        let report := pass.report
        (.ok batch.sorted, pass.events ++
          [.offsetsConverted unit.id report.translated report.skipped report.failures.length])

end Registry
end SymbolAtlas
