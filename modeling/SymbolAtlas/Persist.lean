import SymbolAtlas.Config
import SymbolAtlas.Json.Record
import SymbolAtlas.Span.Basic
import SymbolAtlas.Unit.SourceUnit

/-! The JSON form of everything that is kept. Each record has a table of its fields
for reading and a list of members for writing, in one order. A field may be left
out when it is written only where its value is the one that a missing field is
read as. -/
namespace SymbolAtlas
open Json

/-- A record with a JSON form. -/
class Persisted (ρ : Type) where
  shape : Shape ρ
  members : ρ → List (String × Value)

namespace Persisted
variable {ρ : Type} [Persisted ρ]

/-- Reads a text that is one record and nothing else. -/
def ofText (text : String) : Except Fault ρ := (shape (ρ := ρ)).ofText text

/-- The record as a value. -/
def toValue (r : ρ) : Value := .object (members r)

/-- The text of a record, on one line. -/
def text (r : ρ) : String := (toValue r).text

/-- Reads a record inside a text. -/
def read (b : Budget) : Reader ρ := (shape (ρ := ρ)).read b

end Persisted

namespace Persist

/-! What is written of a field. -/

/-- A text that is always written. -/
def always (name s : String) : List (String × Value) := [(name, .string s)]

/-- A text that is left out when it is empty. -/
def unlessEmpty (name s : String) : List (String × Value) :=
  if s = "" then [] else always name s

/-- A number that is left out when it is zero. -/
def unlessZero (name : String) (n : UInt32) : List (String × Value) :=
  if n = 0 then [] else [(name, .number (.integer n.toNat))]

/-- A truth value that is left out when it is false. -/
def ifSet (name : String) (b : Bool) : List (String × Value) :=
  if b then [(name, .bool b)] else []

/-- A value that is left out when it is null. -/
def unlessNull (name : String) : Value → List (String × Value)
  | .null => []
  | v => [(name, v)]

/-- A list of records that is left out when it is empty. -/
def unlessNone {ρ : Type} [Persisted ρ] (name : String) (rs : List ρ) : List (String × Value) :=
  if rs.isEmpty then [] else [(name, .array (rs.map Persisted.toValue))]

/-- The fields of a key where they stand among those of a larger record. -/
def inlinedKey {ρ : Type} (update : ρ → (SymbolKey → SymbolKey) → ρ) : List (InlinedField ρ) :=
  [.ofString "Repo" fun r repo => update r ({ · with repo }),
    .ofString "UnitType" fun r unitType => update r ({ · with unitType }),
    .ofString "Unit" fun r unit => update r ({ · with unit }),
    .ofString "Path" fun r path => update r ({ · with path })]

end Persist
open Persist

instance : Persisted SymbolKey where
  shape :=
    { name := "DefKey"
      default := {}
      fields :=
        [.of "Repo" string fun k repo => { k with repo },
          .of "UnitType" string fun k unitType => { k with unitType },
          .of "Unit" string fun k unit => { k with unit },
          .of "Path" string fun k path => { k with path }] }
  members k :=
    unlessEmpty "Repo" k.repo ++ always "UnitType" k.unitType ++ always "Unit" k.unit ++
      always "Path" k.path

instance : Persisted Definition where
  shape :=
    { name := "Def"
      default := {}
      fields :=
        [.of "Name" string fun d name => { d with name },
          .of "Kind" string fun d kind => { d with kind },
          .of "File" string fun d file => { d with extent := { d.extent with file } },
          .of "DefStart" word32 fun d start => { d with extent := { d.extent with start } },
          .of "DefEnd" word32 fun d stop => { d with extent := { d.extent with stop } },
          .of "Exported" boolean fun d exported => { d with exported },
          .of "Data" anyValue fun d data => { d with data }]
      inlined := some (inlinedKey fun d f => { d with key := f d.key }) }
  members d :=
    Persisted.members d.key ++ always "Name" d.name ++ unlessEmpty "Kind" d.kind ++
      unlessEmpty "File" d.extent.file ++ unlessZero "DefStart" d.extent.start ++
      unlessZero "DefEnd" d.extent.stop ++ ifSet "Exported" d.exported ++
      unlessNull "Data" d.data

instance : Persisted Reference where
  shape :=
    { name := "Ref"
      default := {}
      fields :=
        [.of "DefRepo" string fun r repo => { r with target := { r.target with repo } },
          .of "DefUnitType" string fun r unitType =>
            { r with target := { r.target with unitType } },
          .of "DefUnit" string fun r unit => { r with target := { r.target with unit } },
          .of "DefPath" string fun r path => { r with target := { r.target with path } },
          .of "Def" boolean fun r isDefinition => { r with isDefinition },
          .of "Repo" string fun r repo => { r with repo },
          .of "UnitType" string fun r unitType => { r with unitType },
          .of "Unit" string fun r unit => { r with unit },
          .of "File" string fun r file => { r with extent := { r.extent with file } },
          .of "Start" word32 fun r start => { r with extent := { r.extent with start } },
          .of "End" word32 fun r stop => { r with extent := { r.extent with stop } }] }
  members r :=
    unlessEmpty "DefRepo" r.target.repo ++ always "DefUnitType" r.target.unitType ++
      always "DefUnit" r.target.unit ++ always "DefPath" r.target.path ++
      ifSet "Def" r.isDefinition ++ unlessEmpty "Repo" r.repo ++
      always "UnitType" r.unitType ++ always "Unit" r.unit ++ always "File" r.extent.file ++
      unlessZero "Start" r.extent.start ++ unlessZero "End" r.extent.stop

instance : Persisted Documentation where
  shape :=
    { name := "Doc"
      default := {}
      fields :=
        [.of "Format" string fun d format => { d with format },
          .of "Data" string fun d text => { d with text },
          .of "File" string fun d file => { d with extent := { d.extent with file } },
          .of "Start" word32 fun d start => { d with extent := { d.extent with start } },
          .of "End" word32 fun d stop => { d with extent := { d.extent with stop } }]
      inlined := some (inlinedKey fun d f => { d with key := f d.key }) }
  members d :=
    Persisted.members d.key ++ always "Format" d.format ++ always "Data" d.text ++
      unlessEmpty "File" d.extent.file ++ unlessZero "Start" d.extent.start ++
      unlessZero "End" d.extent.stop

instance : Persisted Batch where
  shape :=
    { name := "Output"
      default := {}
      fields :=
        [.of "Defs" (list Persisted.read) fun b definitions => { b with definitions },
          .of "Refs" (list Persisted.read) fun b references => { b with references },
          .of "Docs" (list Persisted.read) fun b documentation => { b with documentation }] }
  members b :=
    unlessNone "Defs" b.definitions ++ unlessNone "Refs" b.references ++
      unlessNone "Docs" b.documentation

instance : Persisted ConversionConfig where
  shape :=
    { name := "TranslateConfig"
      default := {}
      fields := [.of "warn_missing_files" boolean fun _ warnMissingFiles => { warnMissingFiles }] }
  members c := [("warn_missing_files", .bool c.warnMissingFiles)]

instance : Persisted NormalizationConfig where
  shape :=
    { name := "NormalizeConfig"
      default := {}
      fields :=
        [.of "canonicalize_def_repos" boolean fun _ canonicalizeRepos => { canonicalizeRepos }] }
  members c := [("canonicalize_def_repos", .bool c.canonicalizeRepos)]

instance : Persisted SourceUnit where
  shape :=
    { name := "SourceUnit"
      default := {}
      fields :=
        [.of "Name" string fun u name => { u with name },
          .of "Type" string fun u unitType => { u with unitType },
          .of "Dir" string fun u dir => { u with dir },
          .of "Files" (list string) fun u files => { u with files }] }
  members u :=
    always "Name" u.name ++ always "Type" u.unitType ++ always "Dir" u.dir ++
      [("Files", .array (u.files.map .string))]

instance : Persisted RepoConfig where
  shape :=
    { name := "RepoConfig"
      default := {}
      fields :=
        [.of "URI" string fun c uri => { c with uri },
          .of "CloneURL" string fun c cloneUrl => { c with cloneUrl },
          .of "CommitID" string fun c commitId => { c with commitId }] }
  members c :=
    always "URI" c.uri ++ always "CloneURL" c.cloneUrl ++ always "CommitID" c.commitId

end SymbolAtlas
