import SymbolAtlas.Files.Fault
import SymbolAtlas.Files.PathName

/-! What a pass may ask of a file system: what kind of thing lies at a path, and
what its bytes are. Both are functions of the components of the path, so two texts
of one path get the same answers. -/
namespace SymbolAtlas

/-- What lies at a path. -/
inductive FileStatus where
  /-- Nothing: some component does not exist, or is not a directory where the
  path goes on. -/
  | missing
  /-- Something without bytes of its own, such as a directory. -/
  | notRegular
  | regular
  /-- It could not be found out. -/
  | failed (fault : AccessFault)
  deriving DecidableEq, Repr

/-- A file system at one moment. -/
structure FileSystem where
  status : List PathName.Component → FileStatus
  read : List PathName.Component → Except AccessFault (List UInt8)

end SymbolAtlas
