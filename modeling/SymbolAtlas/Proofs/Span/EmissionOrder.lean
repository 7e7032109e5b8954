import SymbolAtlas.Proofs.Span.CanonicalOrder
import SymbolAtlas.Proofs.Span.Normalization
import SymbolAtlas.Proofs.Span.Snapshot
import SymbolAtlas.Span.Listing

/-! An analyzer may emit its spans in any order. Conversion and normalization look
at each span by itself and sort at the end, so what comes out is the same for
every order, up to the notes of definitions that nothing else tells apart. -/
namespace SymbolAtlas
namespace Batch

/-- The same spans of each kind, in any order. -/
structure Rearranged (first second : Batch) : Prop where
  definitions : first.definitions.Perm second.definitions
  references : first.references.Perm second.references
  documentation : first.documentation.Perm second.documentation

/-- The same batch but for the notes of definitions. -/
structure SameButNotes (first second : Batch) : Prop where
  definitions : List.Forall₂ Definition.SameButNotes first.definitions second.definitions
  references : first.references = second.references
  documentation : first.documentation = second.documentation

/-- A batch converted to bytes in a pass of its own, then normalized. -/
def finished (fs : FileSystem) (root : String) (conversion : ConversionConfig)
    (normalization : NormalizationConfig) (batch : Batch) : Batch × Option NormalizeError :=
  (batch.convert fs root conversion).2.normalize normalization

variable {first second : Batch}

theorem inBytes_rearranged (rearranged : first.Rearranged second) (fs : FileSystem)
    (root : List Char) : (first.inBytes fs root).Rearranged (second.inBytes fs root) where
  definitions := rearranged.definitions.map _
  references := rearranged.references.map _
  documentation := rearranged.documentation.map _

/-- The listing shows no notes. -/
theorem listing_of_sameButNotes (same : first.SameButNotes second) :
    first.listing = second.listing := by
  have definitions : first.definitions.map Definition.listing =
      second.definitions.map Definition.listing := by
    rw [← List.forall₂_eq_eq_eq, List.forall₂_map_left_iff, List.forall₂_map_right_iff]
    refine same.definitions.imp ?_
    intro a b agree
    have shown : a.withoutNotes.listing = b.withoutNotes.listing :=
      congrArg Definition.listing agree
    exact shown
  rw [listing, listing, lines, lines, definitions, same.references, same.documentation]

/-- Whether normalization succeeds does not depend on the order of the spans. -/
theorem normalize_succeeds_rearranged (rearranged : first.Rearranged second)
    (config : NormalizationConfig) :
    (first.normalize config).2 = none ↔ (second.normalize config).2 = none := by
  rw [normalize_succeeds_iff, normalize_succeeds_iff]
  simp only [rearranged.references.mem_iff]

/-- Neither does what it gives, apart from notes. -/
theorem normalize_rearranged (rearranged : first.Rearranged second)
    {config : NormalizationConfig} (succeeded : (first.normalize config).2 = none) :
    (first.normalize config).1.SameButNotes (second.normalize config).1 := by
  have alike := (normalize_succeeds_rearranged rearranged config).mp succeeded
  rw [normalize_of_success succeeded, normalize_of_success alike]
  exact {
    definitions := sorted_definitions_agree_of_perm rearranged.definitions
    references := sorted_references_eq_of_perm (rearranged.references.map _)
    documentation := sorted_documentation_eq_of_perm rearranged.documentation }

/-- Where notes are told apart by the rest of their definitions nothing at all
depends on the order. -/
theorem normalize_rearranged_eq (rearranged : first.Rearranged second)
    {config : NormalizationConfig} (succeeded : (first.normalize config).2 = none)
    (agreed : ∀ a ∈ first.definitions, ∀ b ∈ first.definitions,
      a.SameButNotes b → a.data = b.data) :
    (first.normalize config).1 = (second.normalize config).1 := by
  have alike := (normalize_succeeds_rearranged rearranged config).mp succeeded
  have same := normalize_rearranged rearranged succeeded
  rw [normalize_of_success succeeded, normalize_of_success alike] at same ⊢
  rw [mk.injEq]
  exact ⟨sorted_definitions_eq_of_perm rearranged.definitions agreed,
    same.references, same.documentation⟩

/-- Two runs on the same spans in different orders fail together or succeed
together. When they succeed they differ in notes at most and list the same; and
they do not differ at all if converted definitions that agree in all else agree in
their notes. -/
theorem finished_ignores_emission_order (rearranged : first.Rearranged second)
    (fs : FileSystem) (root : String) (conversion : ConversionConfig)
    (normalization : NormalizationConfig) :
    ((first.finished fs root conversion normalization).2 = none ↔
      (second.finished fs root conversion normalization).2 = none) ∧
    ((first.finished fs root conversion normalization).2 = none →
      (first.finished fs root conversion normalization).1.SameButNotes
        (second.finished fs root conversion normalization).1 ∧
      (first.finished fs root conversion normalization).1.listing =
        (second.finished fs root conversion normalization).1.listing ∧
      ((∀ a ∈ (first.convert fs root conversion).2.definitions,
          ∀ b ∈ (first.convert fs root conversion).2.definitions,
          a.SameButNotes b → a.data = b.data) →
        (first.finished fs root conversion normalization).1 =
          (second.finished fs root conversion normalization).1)) := by
  have converted := inBytes_rearranged rearranged fs root.toList
  rw [finished, finished, convert_batch, convert_batch]
  refine ⟨normalize_succeeds_rearranged converted normalization, ?_⟩
  intro succeeded
  have same := normalize_rearranged converted succeeded
  exact ⟨same, listing_of_sameButNotes same, normalize_rearranged_eq converted succeeded⟩

/-- Two mentions of repositories that are brought to their canonical form. -/
theorem finished_two_mentions :
    let spelled : Reference := { target := { repo := "ssh://Host/a.git" }, unit := "u" }
    let plain : Reference := { target := { repo := "host/a" }, unit := "t" }
    let declared : Definition := { name := "d", data := .bool true }
    let first : Batch := { definitions := [declared], references := [spelled, plain] }
    let second : Batch := { definitions := [declared], references := [plain, spelled] }
    let fs : FileSystem := { status := fun _ => .missing, read := fun _ => .ok [] }
    first.Rearranged second ∧ (first.finished fs "" {} {}).2 = none ∧
      (first.finished fs "" {} {}).1 = (second.finished fs "" {} {}).1 := by
  intro spelled plain declared first second fs
  have rearranged : first.Rearranged second :=
    ⟨List.Perm.refl _, List.Perm.swap _ _ _, List.Perm.refl _⟩
  have succeeded : (first.finished fs "" {} {}).2 = none := by
    decide
  have outcome := (finished_ignores_emission_order rearranged fs "" {} {}).2 succeeded
  refine ⟨rearranged, succeeded, outcome.2.2 ?_⟩
  intro a memberA b memberB same
  rw [convert_batch] at memberA memberB
  rw [List.mem_singleton.mp memberA, List.mem_singleton.mp memberB]

end Batch
end SymbolAtlas
