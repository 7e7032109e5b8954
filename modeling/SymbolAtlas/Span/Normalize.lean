import SymbolAtlas.Config
import SymbolAtlas.Repo.Uri
import SymbolAtlas.Span.Order

/-! Normalization brings a batch to the form that is kept: the repository of every
reference's target is made canonical, then everything is put in order. When some
repository cannot be made canonical the batch stays as far as it was brought:
references before the offending one have their new repository, nothing else has
changed, and nothing has been reordered. -/
namespace SymbolAtlas

/-- The repository of a reference's target could not be made canonical. -/
structure NormalizeError where
  repo : String
  cause : Repo.UriError
  deriving DecidableEq, Repr

/-- The repository in quotes, then the cause. -/
def NormalizeError.message (e : NormalizeError) : String :=
  "invalid def repo " ++ Text.quoted e.repo ++ ": " ++ e.cause.message

/-- One reference with its target's repository made canonical. No repository
stands for the one that is being analyzed, and stays. -/
def Reference.canonical (r : Reference) : Except NormalizeError Reference :=
  if r.target.repo = "" then .ok r
  else match Repo.canonicalUri r.target.repo with
    | .ok uri => .ok { r with target := { r.target with repo := uri } }
    | .error cause => .error ⟨r.target.repo, cause⟩

/-- The references up to the first that has no canonical form, and the rest as
they were. -/
def canonicalReferences : List Reference → List Reference × Option NormalizeError
  | [] => ([], none)
  | r :: rest =>
    match r.canonical with
    | .error e => (r :: rest, some e)
    | .ok r =>
      let (rest, failed) := canonicalReferences rest
      (r :: rest, failed)

/-- The batch after normalization, and what stopped it if something did. -/
def Batch.normalize (config : NormalizationConfig) (batch : Batch) :
    Batch × Option NormalizeError :=
  if config.canonicalizeRepos then
    match canonicalReferences batch.references with
    | (references, none) => ({ batch with references }.sorted, none)
    | (references, some e) => ({ batch with references }, some e)
  else (batch.sorted, none)

end SymbolAtlas
