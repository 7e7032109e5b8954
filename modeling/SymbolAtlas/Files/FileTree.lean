import SymbolAtlas.Files.FileSystem
import SymbolAtlas.Text.Utf8

/-! A tree of files in memory, with directories, symbolic links and devices. A
path is resolved from left to right: a link is replaced by its target where it
stands, and a parent component leaves the directory that has really been reached.

Every entry is recorded under the names that lead to it from the top directory;
the top directory itself always exists. -/
namespace SymbolAtlas

/-- What a name in a directory stands for. -/
inductive Entry where
  | file (content : List UInt8)
  | directory
  | link (target : List Char)
  | device
  deriving DecidableEq, Repr

/-- The names of an entry and of the directories above it, from the top. No name
is a link. -/
abbrev Location := List (List Char)

/-- A tree of files. No location is recorded twice. -/
structure FileTree where
  entries : List (Location × Entry) := []
  deriving Repr, Inhabited

namespace FileTree
open PathName

/-- Why a path leads nowhere. -/
inductive Obstacle where
  | missing
  | notDirectory
  | fault (fault : AccessFault)
  deriving DecidableEq, Repr

/-- How many links one resolution may follow. -/
def maxLinks : Nat := 40

/-- How many bytes a name may have. -/
def maxName : Nat := 255

/-- How many bytes a path may have, with its end mark. -/
def maxPath : Nat := 4096

/-- The entry at a location. -/
def entry? (t : FileTree) : Location → Option Entry
  | [] => some .directory
  | at_ => (t.entries.find? (·.1 = at_)).map (·.2)

/-- The components of the target of a link. Unlike the components of a path they
keep every dot, and a slash at the end counts as one: what stands before either
must be a directory. -/
def linkComponents (target : List Char) : List Component :=
  let ofSegment? (segment : List Char) : Option Component :=
    if segment = [] then none
    else if segment = ['.'] then some .here
    else if segment = ['.', '.'] then some .parent
    else some (.name segment)
  let front := if target.head? = some '/' then [.root] else []
  let back := if target.getLast? = some '/' then [.here] else []
  front ++ (Text.segments '/' target).filterMap ofSegment? ++ back

/-- Follows the components of a path from a directory, through at most `links`
links. The answer is the place that is reached and what is there; the last name
may be new in an existing directory. -/
def walk (t : FileTree) (links : Nat) (dir : Location) :
    List Component → Except Obstacle (Location × Option Entry)
  | [] => .ok (dir, t.entry? dir)
  | .root :: rest => walk t links [] rest
  | .here :: rest => walk t links dir rest
  | .parent :: rest => walk t links dir.dropLast rest
  | .name chars :: rest =>
    if maxName < (Utf8.encode chars).length then .error (.fault .nameTooLong)
    else
      let place := dir ++ [chars]
      match t.entry? place with
      | none => if rest.isEmpty then .ok (place, none) else .error .missing
      | some .directory => walk t links place rest
      | some (.link target) =>
        match links with
        | 0 => .error (.fault .linkLoop)
        | links + 1 => walk t links dir (linkComponents target ++ rest)
      | some entry => if rest.isEmpty then .ok (place, some entry) else .error .notDirectory
termination_by path => (links, path.length)

/-- What can be said of a path before the tree is looked at. -/
def pathFault? (path : List Component) : Option AccessFault :=
  if path.any fun c => c.chars.contains '\x00' then some .nulInPath
  else
    let length := (path.filter (· ≠ .root)).foldl
      (fun length c => length + 1 + (Utf8.encode c.chars).length) 0
    if maxPath ≤ length then some .nameTooLong else none

/-- What lies at a path. -/
def status (t : FileTree) (path : List Component) : FileStatus :=
  match pathFault? path with
  | some fault => .failed fault
  | none =>
    match t.walk maxLinks [] path with
    | .ok (_, some (.file _)) => .regular
    | .ok (_, some _) => .notRegular
    | .ok (_, none) | .error .missing | .error .notDirectory => .missing
    | .error (.fault fault) => .failed fault

/-- The bytes at a path. -/
def read (t : FileTree) (path : List Component) : Except AccessFault (List UInt8) :=
  match t.walk maxLinks [] path with
  | .ok (_, some (.file content)) => .ok content
  | .ok (_, some _) => .error (.other "IsADirectory" "Is a directory (os error 21)")
  | .ok (_, none) | .error .missing =>
    .error (.other "NotFound" "No such file or directory (os error 2)")
  | .error .notDirectory => .error (.other "NotADirectory" "Not a directory (os error 20)")
  | .error (.fault fault) => .error fault

/-- The tree as a file system. -/
def fileSystem (t : FileTree) : FileSystem := ⟨t.status, t.read⟩

/-- Records an entry at a location, in place of the one that was there. -/
def put (t : FileTree) (place : Location) (entry : Entry) : FileTree :=
  ⟨t.entries.filter (·.1 ≠ place) ++ [(place, entry)]⟩

/-- Makes every directory on a path that does not exist yet. The answer also says
where the path leads, unless something other than a directory is in the way. -/
def makeDirectories (t : FileTree) (dir : Location) :
    List Component → FileTree × Option Location
  | [] => (t, some dir)
  | c :: rest =>
    match t.walk maxLinks dir [c] with
    | .ok (place, some .directory) => makeDirectories t place rest
    | .ok (place, none) => makeDirectories (t.put place .directory) place rest
    | _ => (t, none)

/-- The tree with the directories above a path, and the directory and the last
component of the path. -/
def aboveLast (t : FileTree) (path : List Component) :
    FileTree × Option (Location × Component) :=
  match path.getLast? with
  | none => (t, none)
  | some last =>
    let (t, dir) := t.makeDirectories [] path.dropLast
    (t, dir.map (·, last))

/-- Writes a regular file, through a link if one is there. -/
def writeFile (t : FileTree) (path : List Component) (content : List UInt8) : FileTree :=
  let (t, above) := t.aboveLast path
  match above with
  | none => t
  | some (dir, last) =>
    match t.walk maxLinks dir [last] with
    | .ok (place, none) | .ok (place, some (.file _)) => t.put place (.file content)
    | _ => t

/-- Makes a directory and those above it. -/
def makeDirectory (t : FileTree) (path : List Component) : FileTree :=
  (t.makeDirectories [] path).1

/-- Records a link under the name itself, whatever it points to. -/
def makeLink (t : FileTree) (path : List Component) (target : List Char) : FileTree :=
  let (t, above) := t.aboveLast path
  match above with
  | some (dir, .name chars) => t.put (dir ++ [chars]) (.link target)
  | _ => t

/-- Removes a name from its directory. A link is removed, not what it points to. -/
def remove (t : FileTree) (path : List Component) : FileTree :=
  match path.getLast?, t.walk maxLinks [] path.dropLast with
  | some (.name chars), .ok (dir, some .directory) =>
    ⟨t.entries.filter (·.1 ≠ dir ++ [chars])⟩
  | _, _ => t

end FileTree
end SymbolAtlas
