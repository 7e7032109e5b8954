import SymbolAtlas.Proofs.Span.EmissionOrder

/-! Normalization ends in one of two ways. Either some reference is the first whose
repository is refused, and then everything before it has its new repository and
everything else is as it was; or no reference is refused, and then each has been
renamed by itself and everything is in order. Which of the two it is, and what is
refused, is told by the single references alone. -/
namespace SymbolAtlas

/-- The target names a repository, and the name has no canonical form. -/
def Reference.Refused (r : Reference) (cause : Repo.UriError) : Prop :=
  r.target.repo ≠ "" ∧ Repo.canonicalUri r.target.repo = .error cause

/-- The reference with the canonical name of its target's repository. No name stands
for the repository that is being analyzed, and stays. -/
inductive Reference.Renamed : Reference → Reference → Prop where
  | unnamed {r : Reference} (unnamed : r.target.repo = "") : Renamed r r
  | named {r : Reference} {uri : String} (named : r.target.repo ≠ "")
      (canonical : Repo.canonicalUri r.target.repo = .ok uri) :
      Renamed r { r with target := { r.target with repo := uri } }

/-- What becomes of a reference that is not refused, by the settings. -/
def NormalizationConfig.Renames (config : NormalizationConfig) (r renamed : Reference) : Prop :=
  if config.canonicalizeRepos then r.Renamed renamed else renamed = r

/-- How normalization ends. Those before the refused reference are renamed, so it is
the first one. -/
inductive Batch.EndsAs (config : NormalizationConfig) (batch : Batch) :
    Batch → Option NormalizeError → Prop where
  | refused {before after renamed : List Reference} {r : Reference} {cause : Repo.UriError}
      (wanted : config.canonicalizeRepos = true)
      (split : batch.references = before ++ r :: after)
      (earlier : List.Forall₂ Reference.Renamed before renamed) (refused : r.Refused cause) :
      EndsAs config batch { batch with references := renamed ++ r :: after }
        (some ⟨r.target.repo, cause⟩)
  | finished {renamed : List Reference}
      (each : List.Forall₂ config.Renames batch.references renamed) :
      EndsAs config batch { batch with references := renamed }.sorted none

namespace Reference
variable {r renamed : Reference}

theorem canonical_eq_ok_iff : r.canonical = .ok renamed ↔ r.Renamed renamed := by
  unfold canonical
  by_cases unnamed : r.target.repo = ""
  · rw [if_pos unnamed]
    constructor
    · rintro ⟨⟩
      exact .unnamed unnamed
    · rintro (_ | ⟨named, _⟩)
      · rfl
      · exact absurd unnamed named
  · rw [if_neg unnamed]
    cases answer : Repo.canonicalUri r.target.repo with
    | error cause =>
      constructor
      · rintro ⟨⟩
      · rintro (unnamed' | ⟨_, canonical⟩)
        · exact absurd unnamed' unnamed
        · rw [answer] at canonical
          cases canonical
    | ok uri =>
      constructor
      · rintro ⟨⟩
        exact .named unnamed answer
      · rintro (unnamed' | ⟨_, canonical⟩)
        · exact absurd unnamed' unnamed
        · rw [answer] at canonical
          cases canonical
          rfl

theorem canonical_eq_error_iff {e : NormalizeError} :
    r.canonical = .error e ↔ ∃ cause, r.Refused cause ∧ e = ⟨r.target.repo, cause⟩ := by
  unfold canonical Refused
  by_cases unnamed : r.target.repo = ""
  · rw [if_pos unnamed]
    simp [unnamed]
  · rw [if_neg unnamed]
    cases answer : Repo.canonicalUri r.target.repo with
    | error cause => simp [unnamed, eq_comm]
    | ok uri => simp

/-- A reference that is not refused can be renamed. -/
theorem identifiable_iff : r.Identifiable ↔ ∀ cause, ¬ r.Refused cause := by
  unfold Identifiable
  cases found : r.canonical with
  | ok next =>
    refine iff_of_true ⟨next, rfl⟩ fun cause refused => ?_
    rw [canonical_eq_error_iff.mpr ⟨cause, refused, rfl⟩] at found
    cases found
  | error e =>
    obtain ⟨cause, refused, _⟩ := canonical_eq_error_iff.mp found
    exact iff_of_false (by simp) fun none => none cause refused

end Reference

/-- No reference is refused exactly when each is renamed, into what comes out. -/
theorem canonicalReferences_eq_none_iff {references renamed : List Reference} :
    canonicalReferences references = (renamed, none) ↔
      List.Forall₂ Reference.Renamed references renamed := by
  induction references generalizing renamed with
  | nil => simp [canonicalReferences, eq_comm]
  | cons r rest ih =>
    rw [canonicalReferences, List.forall₂_cons_left_iff]
    cases found : r.canonical with
    | error e =>
      constructor
      · rintro ⟨⟩
      · rintro ⟨next, _, became, _⟩
        rw [Reference.canonical_eq_ok_iff.mpr became] at found
        cases found
    | ok next =>
      have became := Reference.canonical_eq_ok_iff.mp found
      constructor
      · intro same
        obtain ⟨rfl, none⟩ := Prod.mk.inj same
        exact ⟨next, _, became, ih.mp (Prod.ext rfl none), rfl⟩
      · rintro ⟨other, others, became', each, rfl⟩
        rw [← Reference.canonical_eq_ok_iff, found] at became'
        cases became'
        simp only [ih.mpr each]

/-- Some reference is refused exactly when one comes after others that are renamed. -/
theorem canonicalReferences_eq_some_iff {references result : List Reference}
    {e : NormalizeError} :
    canonicalReferences references = (result, some e) ↔
      ∃ before r after renamed cause, references = before ++ r :: after ∧
        List.Forall₂ Reference.Renamed before renamed ∧ r.Refused cause ∧
        result = renamed ++ r :: after ∧ e = ⟨r.target.repo, cause⟩ := by
  induction references generalizing result with
  | nil => simp [canonicalReferences]
  | cons r rest ih =>
    rw [canonicalReferences]
    cases found : r.canonical with
    | error e' =>
      obtain ⟨cause, refused, rfl⟩ := Reference.canonical_eq_error_iff.mp found
      constructor
      · rintro ⟨⟩
        exact ⟨[], r, rest, [], cause, rfl, .nil, refused, rfl, rfl⟩
      · rintro ⟨before, s, after, renamed, cause', split, earlier, refused', rfl, rfl⟩
        cases earlier with
        | nil =>
          obtain ⟨rfl, rfl⟩ := List.cons.inj split
          cases refused.2.symm.trans refused'.2
          rfl
        | cons became _ =>
          obtain ⟨rfl, _⟩ := List.cons.inj split
          rw [Reference.canonical_eq_ok_iff.mpr became] at found
          cases found
    | ok next =>
      constructor
      · intro same
        obtain ⟨rfl, some⟩ := Prod.mk.inj same
        obtain ⟨before, s, after, renamed, cause, rfl, earlier, refused, result, rfl⟩ :=
          ih.mp (Prod.ext rfl some)
        have became := Reference.canonical_eq_ok_iff.mp found
        exact ⟨r :: before, s, after, next :: renamed, cause, rfl, .cons became earlier, refused,
          congrArg (next :: ·) result, rfl⟩
      · rintro ⟨before, s, after, renamed, cause, split, earlier, refused, rfl, rfl⟩
        cases earlier with
        | nil =>
          obtain ⟨rfl, rfl⟩ := List.cons.inj split
          rw [Reference.canonical_eq_error_iff.mpr ⟨cause, refused, rfl⟩] at found
          cases found
        | cons became each =>
          obtain ⟨rfl, rfl⟩ := List.cons.inj split
          rw [← Reference.canonical_eq_ok_iff, found] at became
          cases became
          have later := ih.mpr ⟨_, s, after, _, cause, rfl, each, refused, rfl, rfl⟩
          simp only [later, List.cons_append]

namespace Batch
variable {config : NormalizationConfig} {batch : Batch}

/-- What comes out of sorting is found to be in order. -/
theorem isSorted_sorted (batch : Batch) : batch.sorted.isSorted = true := by
  rw [isSorted, Bool.and_eq_true, Bool.and_eq_true, isSortedBy_iff_pairwise,
    isSortedBy_iff_pairwise, isSortedBy_iff_pairwise]
  exact ⟨⟨sortedBy_pairwise _, sortedBy_pairwise _⟩, sortedBy_pairwise _⟩

theorem sorted_rearranged (batch : Batch) : batch.sorted.Rearranged batch where
  definitions := sortedBy_perm _ _
  references := sortedBy_perm _ _
  documentation := sortedBy_perm _ _

/-- Where the settings ask for no canonical names every reference stays. -/
theorem renames_kept_iff (unwanted : config.canonicalizeRepos = false)
    {references renamed : List Reference} :
    List.Forall₂ config.Renames references renamed ↔ references = renamed := by
  have kept : config.Renames = Eq := by
    funext r renamed
    simp [NormalizationConfig.Renames, unwanted, eq_comm]
  rw [kept, List.forall₂_eq_eq_eq]

theorem renames_wanted (wanted : config.canonicalizeRepos = true) :
    config.Renames = Reference.Renamed := by
  funext r renamed
  simp [NormalizationConfig.Renames, wanted]

theorem endsAs_iff {after : Batch} {failed : Option NormalizeError} :
    batch.EndsAs config after failed ↔ batch.normalize config = (after, failed) := by
  unfold normalize
  cases wanted : config.canonicalizeRepos with
  | false =>
    rw [if_neg Bool.false_ne_true]
    constructor
    · rintro (_ | each)
      · simp_all
      · rw [← (renames_kept_iff wanted).mp each]
    · rintro ⟨⟩
      exact .finished ((renames_kept_iff wanted).mpr rfl)
  | true =>
    rw [if_pos rfl]
    constructor
    · rintro (⟨_, split, earlier, refused⟩ | each)
      · rw [canonicalReferences_eq_some_iff.mpr
          ⟨_, _, _, _, _, split, earlier, refused, rfl, rfl⟩]
      · rw [renames_wanted wanted] at each
        rw [canonicalReferences_eq_none_iff.mpr each]
    · cases outcome : canonicalReferences batch.references with
      | mk references stopped =>
        cases stopped with
        | none =>
          rintro ⟨⟩
          refine .finished ?_
          rw [renames_wanted wanted]
          exact canonicalReferences_eq_none_iff.mp outcome
        | some e =>
          rintro ⟨⟩
          obtain ⟨before, r, rest, renamed, cause, split, earlier, refused, rfl, rfl⟩ :=
            canonicalReferences_eq_some_iff.mp outcome
          exact .refused wanted split earlier refused

/-- Normalization is stopped exactly where canonical names are asked for and one of
the names has none. -/
theorem normalize_succeeds_iff_none_refused :
    (batch.normalize config).2 = none ↔
      (config.canonicalizeRepos = true → ∀ r ∈ batch.references, ∀ cause, ¬ r.Refused cause) := by
  rw [normalize_succeeds_iff]
  simp only [Reference.identifiable_iff]

/-- Normalization ends in the one way that the references allow, and it is stopped
exactly where one of them is refused. When it is not stopped the batch is found to
be in order, and its spans are those that it had, each reference renamed. -/
theorem normalize_ends (config : NormalizationConfig) (batch after : Batch)
    (failed : Option NormalizeError) :
    (batch.normalize config = (after, failed) ↔ batch.EndsAs config after failed) ∧
    ((batch.normalize config).2 = none ↔
      (config.canonicalizeRepos = true → ∀ r ∈ batch.references, ∀ cause, ¬ r.Refused cause)) ∧
    (batch.normalize config = (after, none) → after.isSorted = true ∧
      ∃ renamed, List.Forall₂ config.Renames batch.references renamed ∧
        after.Rearranged { batch with references := renamed }) := by
  refine ⟨endsAs_iff.symm, normalize_succeeds_iff_none_refused, fun ended => ?_⟩
  cases endsAs_iff.mpr ended with
  | finished each => exact ⟨isSorted_sorted _, _, each, sorted_rearranged _⟩

/-- Two names, the later of which is the smaller one once both are canonical. -/
theorem normalize_ends_in_order :
    let mention (repo : String) : Reference := { target := { repo } }
    let batch : Batch := { references := [mention "git@Host:o/n.git", mention "a/b/", mention ""] }
    (batch.normalize {}).2 = none ∧ (batch.normalize {}).1.isSorted = true ∧
      batch.isSorted = false := by
  intro mention batch
  have succeeded : (batch.normalize {}).2 = none := by decide
  have ended : batch.normalize {} = ((batch.normalize {}).1, none) := Prod.ext rfl succeeded
  have sorted := ((normalize_ends {} batch (batch.normalize {}).1 none).2.2 ended).1
  exact ⟨succeeded, sorted, by decide⟩

/-- A name with a space stops after the mention before it was renamed. -/
example :
    let mention (repo : String) : Reference := { target := { repo } }
    let batch : Batch :=
      { references :=
          [mention "git@host:o/n.git", mention "", mention "not a repo", mention "B/c"] }
    batch.normalize {} =
      ({ references := [mention "host/o/n", mention "", mention "not a repo", mention "B/c"] },
        some ⟨"not a repo", .invalidCharacter ' '⟩) := by
  cbv

end Batch
end SymbolAtlas
