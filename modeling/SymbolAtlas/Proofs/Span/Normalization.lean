import SymbolAtlas.Span.Normalize

/-! Normalization goes through the references one by one and stops at the first
whose target has no canonical repository. So whether it succeeds is a matter of
the single references, and when it does each of them has been mapped by itself
before everything is sorted. -/
namespace SymbolAtlas

/-- The target's repository can be made canonical. -/
def Reference.Identifiable (r : Reference) : Prop := ∃ canonical, r.canonical = .ok canonical

/-- A reference with its target's repository made canonical where that is possible. -/
def Reference.identified (r : Reference) : Reference :=
  match r.canonical with
  | .ok canonical => canonical
  | .error _ => r

/-- A reference as normalization leaves it when it succeeds. -/
def NormalizationConfig.target (config : NormalizationConfig) (r : Reference) : Reference :=
  if config.canonicalizeRepos then r.identified else r

theorem canonicalReferences_of_identifiable {references : List Reference}
    (identifiable : ∀ r ∈ references, r.Identifiable) :
    canonicalReferences references = (references.map Reference.identified, none) := by
  induction references with
  | nil => rfl
  | cons r rest ih =>
    obtain ⟨canonical, found⟩ := identifiable r List.mem_cons_self
    have later := ih fun other member => identifiable other (List.mem_cons_of_mem r member)
    rw [canonicalReferences, found]
    simp only [later, List.map_cons, Reference.identified, found]

/-- No reference stops the pass exactly when none of them would stop it alone. -/
theorem canonicalReferences_succeeds_iff (references : List Reference) :
    (canonicalReferences references).2 = none ↔ ∀ r ∈ references, r.Identifiable := by
  constructor
  · intro succeeded
    induction references with
    | nil => simp
    | cons r rest ih =>
      rw [canonicalReferences] at succeeded
      cases found : r.canonical with
      | error cause =>
        rw [found] at succeeded
        cases succeeded
      | ok canonical =>
        rw [found] at succeeded
        rw [List.forall_mem_cons]
        exact ⟨⟨canonical, found⟩, ih succeeded⟩
  · intro identifiable
    rw [canonicalReferences_of_identifiable identifiable]

namespace Batch

theorem normalize_succeeds_iff (config : NormalizationConfig) (batch : Batch) :
    (batch.normalize config).2 = none ↔
      (config.canonicalizeRepos = true → ∀ r ∈ batch.references, r.Identifiable) := by
  rw [← canonicalReferences_succeeds_iff, normalize]
  cases config.canonicalizeRepos with
  | false => simp
  | true =>
    simp only [if_true, true_imp_iff]
    obtain ⟨references, failed⟩ := canonicalReferences batch.references
    cases failed with
    | none => simp
    | some stopped => simp

/-- A batch that is normalized has its references mapped one by one and everything
sorted. -/
theorem normalize_of_success {config : NormalizationConfig} {batch : Batch}
    (succeeded : (batch.normalize config).2 = none) :
    (batch.normalize config).1 =
      { batch with references := batch.references.map config.target }.sorted := by
  have identifiable := (normalize_succeeds_iff config batch).mp succeeded
  unfold normalize NormalizationConfig.target
  by_cases wanted : config.canonicalizeRepos = true
  · simp [wanted, canonicalReferences_of_identifiable (identifiable wanted)]
  · simp [wanted]

end Batch
end SymbolAtlas
