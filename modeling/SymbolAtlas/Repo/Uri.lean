import SymbolAtlas.Text.Blank
import SymbolAtlas.Text.Quoted
import SymbolAtlas.Text.Segments

/-! A repository is identified by its host and its path, `host/segment/...`, in
lower-case host letters and without scheme, user, host number, `.git` suffix or
dot segments. Clone addresses of every usual shape are brought to this form: a
full address with a scheme, the short form `user@host:path`, and the bare
`host/path`. Each step below is a function on the characters of the address. -/
namespace SymbolAtlas.Repo

/-- Why a text identifies no repository. -/
inductive UriError where
  | empty
  /-- Holds the first blank or control character. -/
  | invalidCharacter (c : Char)
  | missingHost
  /-- A parent segment leads above the repository root. -/
  | escapesRoot
  deriving DecidableEq, Repr

/-- The cause alone, without the offending character. -/
def UriError.summary : UriError → String
  | .empty => "empty repository identifier"
  | .invalidCharacter _ => "whitespace or control character"
  | .missingHost => "no host"
  | .escapesRoot => "path escapes the repository root"

/-- The cause, with the offending character in quotes where there is one. -/
def UriError.message : UriError → String
  | .invalidCharacter c => (UriError.invalidCharacter c).summary ++ " " ++ Text.quotedSingle c
  | cause => cause.summary

/-- What follows the first `://`, if there is one. -/
def afterScheme : List Char → Option (List Char)
  | [] => none
  | ':' :: '/' :: '/' :: rest => some rest
  | _ :: rest => afterScheme rest

/-- One or more ASCII digits and nothing else: what may stand after a host and a
colon without being a path. -/
def isHostNumber (text : List Char) : Bool :=
  !text.isEmpty && text.all Char.isDigit

/-- Splits an address into the part that names the host and the path.

With a scheme the first slash after it separates the two. Otherwise the last
colon before the first slash does, unless digits alone stand between them; then,
and without a colon, the path begins at the first slash. -/
def splitAuthority (address : List Char) : List Char × List Char :=
  match afterScheme address with
  | some rest => (Text.cutFirst '/' rest).getD (rest, [])
  | none =>
    let head := address.takeWhile (· != '/')
    let tail := address.dropWhile (· != '/')
    match Text.cutLast ':' head with
    | some (host, after) => if isHostNumber after then (head, tail) else (host, after ++ tail)
    | none => (head, tail)

/-- Drops a user name, which ends at the last `@`. -/
def dropUser (authority : List Char) : List Char :=
  match Text.cutLast '@' authority with
  | some (_, host) => host
  | none => authority

/-- Drops the last colon and what follows it when that is digits or nothing. -/
def dropHostNumber (authority : List Char) : List Char :=
  match Text.cutLast ':' authority with
  | some (host, after) => if after.isEmpty || isHostNumber after then host else authority
  | none => authority

/-- One segment of a path applied to the segments kept so far, latest first:
empty and dot segments do nothing, a parent segment takes the latest away. -/
def stepSegment (kept : List (List Char)) (segment : List Char) :
    Except UriError (List (List Char)) :=
  if segment = [] ∨ segment = ['.'] then .ok kept
  else if segment = ['.', '.'] then
    match kept with
    | [] => .error .escapesRoot
    | _ :: below => .ok below
  else .ok (segment :: kept)

/-- Takes one `.git` suffix off a segment, unless nothing would be left. -/
def dropGitSuffix (segment : List Char) : List Char :=
  let stem := segment.take (segment.length - 4)
  if stem ≠ [] ∧ segment = stem ++ ['.', 'g', 'i', 't'] then stem else segment

/-- The segments of a path once its dot segments are resolved. Only the last one
loses a `.git` suffix, and it is the last only after the resolution. -/
def cleanSegments (path : List Char) : Except UriError (List (List Char)) :=
  match (Text.segments '/' path).foldlM stepSegment [] with
  | .error cause => .error cause
  | .ok [] => .ok []
  | .ok (last :: earlier) => .ok (dropGitSuffix last :: earlier).reverse

/-- The host in lower case, then each segment after a slash. -/
def assemble (host : List Char) (segments : List (List Char)) : List Char :=
  host.map Char.toLower ++ segments.flatMap ('/' :: ·)

/-- The canonical form of the address in `text`, on characters. A missing host is
reported before anything about the path. -/
def canonicalChars (text : List Char) : Except UriError (List Char) :=
  if text = [] then .error .empty
  else match text.find? fun c => Text.isBlank c || Text.isControl c with
    | some c => .error (.invalidCharacter c)
    | none =>
      let (authority, path) := splitAuthority text
      let host := dropHostNumber (dropUser authority)
      if host = [] then .error .missingHost
      else (cleanSegments path).map (assemble host)

/-- The canonical identifier of the repository that an address names. -/
def canonicalUri (address : String) : Except UriError String :=
  (canonicalChars address.toList).map String.ofList

/-- Canonicalises again and again, at most `times` times, and stops after the
first failure. -/
def canonicalRun : Nat → String → List (Except UriError String)
  | 0, _ => []
  | n + 1, address =>
    match canonicalUri address with
    | .ok uri => .ok uri :: canonicalRun n uri
    | .error cause => [.error cause]

end SymbolAtlas.Repo
