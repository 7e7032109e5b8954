import SymbolAtlas.Text.Segments

/-! Names of files as a file system reads them: components with slashes between
them. Empty components say nothing, and neither does a dot, except that a leading
dot of a relative name is kept. Parent components are kept too: only the file
system knows what lies above a directory that is reached through a link.

Two paths are the same place when they have the same components, whatever their
texts are. -/
namespace SymbolAtlas.PathName

/-- One component of a path. -/
inductive Component where
  /-- The leading slash of an absolute path. -/
  | root
  /-- A leading dot. -/
  | here
  | parent
  | name (chars : List Char)
  deriving DecidableEq, Repr

/-- How a component is written. -/
def Component.chars : Component → List Char
  | .root => ['/']
  | .here => ['.']
  | .parent => ['.', '.']
  | .name chars => chars

/-- The component that a segment stands for beyond the front of a path. -/
def ofSegment? (segment : List Char) : Option Component :=
  if segment = [] ∨ segment = ['.'] then none
  else if segment = ['.', '.'] then some .parent
  else some (.name segment)

/-- The components of a path. -/
def components (path : List Char) : List Component :=
  match path with
  | '/' :: rest => .root :: (Text.segments '/' rest).filterMap ofSegment?
  | _ =>
    match Text.segments '/' path with
    | ['.'] :: rest => .here :: rest.filterMap ofSegment?
    | segments => segments.filterMap ofSegment?

/-- Appends a component, after a slash unless there is one or nothing before it. -/
def push (path : List Char) (c : Component) : List Char :=
  match path.getLast? with
  | none => c.chars
  | some '/' => path ++ c.chars
  | some _ => path ++ '/' :: c.chars

/-- The path of a file under a root. The leading slash of an absolute name is
dropped, so that such a name is looked for under the root as well. -/
def resolve (root file : List Char) : List Char :=
  ((components file).filter (· ≠ .root)).foldl push root

end SymbolAtlas.PathName
