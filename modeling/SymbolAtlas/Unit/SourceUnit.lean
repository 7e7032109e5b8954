import SymbolAtlas.Event

/-! A source unit is what one analyzer run looks at, such as a package. Its type
selects the analyzer. -/
namespace SymbolAtlas

/-- A unit of source code. -/
structure SourceUnit where
  name : String := ""
  unitType : String := ""
  /-- The directory of the unit, relative to the root of the checkout. -/
  dir : String := ""
  /-- The files of the unit, relative to the root of the checkout. -/
  files : List String := []
  deriving DecidableEq, Repr, Inhabited

/-- What is known of the repository that is analyzed. -/
structure RepoConfig where
  uri : String := ""
  cloneUrl : String := ""
  commitId : String := ""
  deriving DecidableEq, Repr, Inhabited

/-- Name and type of the unit as one text. -/
def SourceUnit.id (u : SourceUnit) : String := u.name ++ "@" ++ u.unitType

/-- Whether a unit is selected, and what is logged. No selectors select every
unit; otherwise one must be the id of the unit or its bare name. -/
def SourceUnit.isSelected (u : SourceUnit) (selectors : List String) : Bool × List Event :=
  if selectors.isEmpty || selectors.any fun s => s = u.id || s = u.name then (true, [])
  else (false, [.unitSkipped u.id])

end SymbolAtlas
