import SymbolAtlas.Proofs.Json.Brackets
import SymbolAtlas.Proofs.Persist.Kinds

/-! A record that is written and read again is the same record, of whatever kind it
is. Two things are asked of it: the analyzer's notes hold no floats, since a float
may be read back as another one, and the text opens no more brackets at once than a
reader follows. A record that has been read is within that limit, so its own text is
a fixed form. -/
namespace SymbolAtlas
open Json

/-! ### Kinds of records -/

/-- The kinds of records that have a JSON form. -/
inductive RecordKind where
  | key
  | definition
  | reference
  | documentation
  | batch
  | conversionConfig
  | normalizationConfig
  | sourceUnit
  | repoConfig
  deriving DecidableEq, Repr

namespace RecordKind

/-- The records of a kind. -/
abbrev Record : RecordKind → Type
  | key => SymbolKey
  | definition => Definition
  | reference => Reference
  | documentation => Documentation
  | batch => Batch
  | conversionConfig => ConversionConfig
  | normalizationConfig => NormalizationConfig
  | sourceUnit => SourceUnit
  | repoConfig => RepoConfig

instance : (kind : RecordKind) → Persisted kind.Record
  | key => inferInstanceAs (Persisted SymbolKey)
  | definition => inferInstanceAs (Persisted Definition)
  | reference => inferInstanceAs (Persisted Reference)
  | documentation => inferInstanceAs (Persisted Documentation)
  | batch => inferInstanceAs (Persisted Batch)
  | conversionConfig => inferInstanceAs (Persisted ConversionConfig)
  | normalizationConfig => inferInstanceAs (Persisted NormalizationConfig)
  | sourceUnit => inferInstanceAs (Persisted SourceUnit)
  | repoConfig => inferInstanceAs (Persisted RepoConfig)

/-- The analyzer's notes in a record. -/
def notes : (kind : RecordKind) → kind.Record → List Value
  | definition, d => [d.data]
  | batch, b => b.definitions.map fun d => d.data
  | key, _ | reference, _ | documentation, _ | conversionConfig, _ | normalizationConfig, _
  | sourceUnit, _ | repoConfig, _ => []

end RecordKind

/-! ### What has been read -/

/-- The notes of a definition that is read are within the brackets of its object. -/
theorem definition_held {b : Budget} {text rest : List Char} {d : Definition}
    (read : Persisted.read b text = .ok (d, rest)) : ∃ n < b.nesting, d.data.Held n := by
  refine Shape.read_keep (P := fun d : Definition => ∃ n < b.nesting, d.data.Held n) ?_ read
  intro nesting fewer
  constructor
  · exact ⟨nesting, fewer, .null, Nat.zero_le _⟩
  · intro field member r text next rest before one
    simp only [Persisted.shape, List.mem_cons, List.not_mem_nil, or_false] at member
    -- Only the last field touches the notes.
    rcases member with rfl | rfl | rfl | rfl | rfl | rfl | rfl <;>
      obtain ⟨_, read, rfl⟩ := Field.of_stored one
    · exact before
    · exact before
    · exact before
    · exact before
    · exact before
    · exact before
    · exact ⟨nesting, fewer, value_held read⟩
  · intro fields some field member r v next before stored
    cases some
    simp only [Persist.inlinedKey, List.mem_cons, List.not_mem_nil, or_false] at member
    rcases member with rfl | rfl | rfl | rfl <;>
      obtain ⟨_, rfl⟩ := InlinedField.ofString_stored stored <;> exact before

/-- The definitions of a batch are one list and one object further in. -/
theorem batch_held {b : Budget} {text rest : List Char} {batch : Batch}
    (read : Persisted.read b text = .ok (batch, rest)) :
    ∀ d ∈ batch.definitions, ∃ n, n + 2 < b.nesting ∧ d.data.Held n := by
  refine Shape.read_keep (P := fun batch : Batch => ∀ d ∈ batch.definitions,
    ∃ n, n + 2 < b.nesting ∧ d.data.Held n) ?_ read
  intro nesting fewer
  constructor
  · exact List.forall_mem_nil _
  · intro field member r text next rest before one
    simp only [Persisted.shape, List.mem_cons, List.not_mem_nil, or_false] at member
    rcases member with rfl | rfl | rfl <;> obtain ⟨_, read, rfl⟩ := Field.of_stored one
    · refine list_forall (fun inner less text d rest read => ?_) read
      obtain ⟨n, deeper, held⟩ := definition_held read
      simp only at less deeper
      exact ⟨n, by omega, held⟩
    · exact before
    · exact before
  · intro fields some
    cases some

/-! ### Brackets of a record -/

theorem definition_nesting (d : Definition) :
    (Persisted.toValue d).nesting = d.data.nesting + 1 := by
  simp [Persisted.toValue, Persisted.members, Value.nesting]

theorem reference_nesting (r : Reference) : (Persisted.toValue r).nesting = 1 := by
  simp [Persisted.toValue, Persisted.members, Value.nesting]

theorem documentation_nesting (d : Documentation) : (Persisted.toValue d).nesting = 1 := by
  simp [Persisted.toValue, Persisted.members, Value.nesting]

theorem batch_nesting_le {b : Batch} {n : Nat} (fits : ∀ d ∈ b.definitions, d.data.nesting ≤ n) :
    (Persisted.toValue b).nesting ≤ n + 3 := by
  have definitions : ∀ d ∈ b.definitions, (Persisted.toValue d).nesting ≤ n + 1 :=
    fun d member => definition_nesting d ▸ Nat.succ_le_succ (fits d member)
  have references : ∀ r ∈ b.references, (Persisted.toValue r).nesting ≤ n + 1 :=
    fun r _ => reference_nesting r ▸ Nat.le_add_left 1 n
  have documentation : ∀ d ∈ b.documentation, (Persisted.toValue d).nesting ≤ n + 1 :=
    fun d _ => documentation_nesting d ▸ Nat.le_add_left 1 n
  have definitions := membersNesting_unlessNone_le "Defs" definitions
  have references := membersNesting_unlessNone_le "Refs" references
  have documentation := membersNesting_unlessNone_le "Docs" documentation
  simp only [Persisted.toValue, Persisted.members, Value.nesting, membersNesting_append]
  omega

theorem sourceUnit_nesting (u : SourceUnit) : (Persisted.toValue u).nesting = 2 := by
  have files : itemsNesting (u.files.map .string) = 0 :=
    Nat.le_zero.mp (itemsNesting_le_iff.mpr (List.forall_mem_map.mpr fun _ _ => Nat.le_refl 0))
  simp [Persisted.toValue, Persisted.members, Value.nesting, membersNesting, files]

namespace RecordKind

/-- A record that has been read has notes that can be held, and its own text opens no
more brackets at once than a reader follows. -/
theorem held (kind : RecordKind) {b : Budget} (whole : b.nesting = maxNesting)
    {text rest : List Char} {r : kind.Record} (read : Persisted.read b text = .ok (r, rest)) :
    (∀ v ∈ kind.notes r, v.Valid) ∧ (Persisted.toValue r).nesting ≤ maxNesting := by
  have flat : 1 ≤ maxNesting := by decide
  cases kind with
  | key =>
    refine ⟨List.forall_mem_nil _, Nat.le_trans (Nat.le_of_eq ?_) flat⟩
    simp [Persisted.toValue, Persisted.members, Value.nesting]
  | definition =>
    obtain ⟨n, fewer, held⟩ := definition_held read
    have opens := held.opens
    refine ⟨List.forall_mem_singleton.mpr held.valid, ?_⟩
    exact Nat.le_trans (Nat.le_of_eq (definition_nesting r)) (by omega)
  | reference =>
    exact ⟨List.forall_mem_nil _, Nat.le_trans (Nat.le_of_eq (reference_nesting r)) flat⟩
  | documentation =>
    exact ⟨List.forall_mem_nil _, Nat.le_trans (Nat.le_of_eq (documentation_nesting r)) flat⟩
  | batch =>
    have held := batch_held read
    have fits : ∀ d ∈ r.definitions, d.data.nesting ≤ maxNesting - 3 := by
      intro d member
      obtain ⟨n, deeper, held⟩ := held d member
      have opens := held.opens
      omega
    refine ⟨List.forall_mem_map.mpr fun d member => ?_, batch_nesting_le fits⟩
    obtain ⟨_, _, held⟩ := held d member
    exact held.valid
  | conversionConfig => exact ⟨List.forall_mem_nil _, flat⟩
  | normalizationConfig => exact ⟨List.forall_mem_nil _, flat⟩
  | sourceUnit =>
    exact ⟨List.forall_mem_nil _, Nat.le_trans (Nat.le_of_eq (sourceUnit_nesting r)) (by decide)⟩
  | repoConfig =>
    refine ⟨List.forall_mem_nil _, Nat.le_trans (Nat.le_of_eq ?_) flat⟩
    simp [Persisted.toValue, Persisted.members, Value.nesting]

end RecordKind

namespace RecordKind

/-! ### Reading back -/

/-- Every kind of record is read back from its value, if its notes are. -/
theorem reads (kind : RecordKind) (r : kind.Record)
    (held : ∀ v ∈ kind.notes r, v.Valid ∧ v.Integral) :
    Reads Persisted.read (Persisted.toValue r) r := by
  cases kind with
  | key => exact key_reads r
  | definition =>
    obtain ⟨valid, integral⟩ := List.forall_mem_singleton.mp held
    exact definition_reads valid integral
  | reference => exact reference_reads r
  | documentation => exact documentation_reads r
  | batch => exact batch_reads (List.forall_mem_map.mp held)
  | conversionConfig => exact conversionConfig_reads r
  | normalizationConfig => exact normalizationConfig_reads r
  | sourceUnit => exact sourceUnit_reads r
  | repoConfig => exact repoConfig_reads r

end RecordKind

/-! ### Whole texts -/

theorem ofText_text_of_reads {ρ : Type} [Persisted ρ] {r : ρ}
    (reads : Reads Persisted.read (Persisted.toValue r) r)
    (opens : (Persisted.toValue r).nesting ≤ maxNesting) :
    Persisted.ofText (Persisted.text r) = .ok r := by
  have text : (Persisted.text r).toList = (Persisted.toValue r).chars := String.toList_ofList
  have covers : (Budget.ofText (Persisted.toValue r).chars).Covers (Persisted.toValue r) :=
    ⟨opens, Nat.le_succ _⟩
  have read := (reads _ covers).reads [] numberEnds_nil
  rw [List.append_nil] at read
  simp only [Persisted.ofText, Shape.ofText, text]
  change (Persisted.read _ _).bind atEnd = _
  rw [read]
  rfl

theorem read_of_ofText {ρ : Type} [Persisted ρ] {text : String} {r : ρ}
    (accepted : Persisted.ofText text = .ok r) :
    ∃ rest, Persisted.read (Budget.ofText text.toList) text.toList = .ok (r, rest) := by
  obtain ⟨⟨a, rest⟩, read, ended⟩ := bind_eq_ok accepted
  simp only [atEnd] at ended
  split at ended
  · cases ended; exact ⟨rest, read⟩
  · contradiction

/-- Nothing is lost between writing and reading: a record whose notes hold no floats
is read back from its text, unless that opens too many brackets at once; and the text
of a record that has been read is a fixed form of whatever text it was read from. -/
theorem RecordKind.lossless (kind : RecordKind) :
    (∀ r : kind.Record, (∀ v ∈ kind.notes r, v.Valid ∧ v.Integral) →
      deepest (Persisted.text r) < 128 → Persisted.ofText (Persisted.text r) = .ok r) ∧
    (∀ (text : String) (r : kind.Record), Persisted.ofText text = .ok r →
      (∀ v ∈ kind.notes r, v.Integral) →
      Persisted.ofText (Persisted.text r) = .ok r ∧
        (Persisted.ofText (Persisted.text r)).map (Persisted.text (ρ := kind.Record)) =
          .ok (Persisted.text r)) := by
  constructor
  · intro r held shallow
    have opens : (Persisted.toValue r).nesting < 128 := by
      rwa [Persisted.text, deepest_text] at shallow
    exact ofText_text_of_reads (kind.reads r held) (Nat.le_of_lt_succ opens)
  · intro text r accepted integral
    obtain ⟨rest, read⟩ := read_of_ofText accepted
    obtain ⟨valid, opens⟩ := kind.held rfl read
    have again : Persisted.ofText (Persisted.text r) = .ok r :=
      ofText_text_of_reads (kind.reads r fun v member => ⟨valid v member, integral v member⟩) opens
    exact ⟨again, by rw [again]; rfl⟩

/-- A bracket inside a note is none, and the text that a definition is read from may
have blanks, escapes and another order than its own. -/
theorem RecordKind.lossless_noted_definition :
    let d : Definition :=
      { name := "n", data := .object [("a", .array [.number (.integer (-2))]), ("b", .string "[")] }
    let text := "\x7b\"Data\": \x7b\"b\":\"\\u005b\", \"a\":[-2]\x7d, \"Name\":\"n\"\x7d"
    (d.data.Valid ∧ d.data.Integral) ∧ deepest (Persisted.text d) = 3 ∧
      Persisted.ofText (Persisted.text d) = .ok d ∧ Persisted.ofText text = .ok d ∧
      (Persisted.ofText (Persisted.text d)).map (Persisted.text (ρ := Definition)) =
        .ok (Persisted.text d) := by
  intro d text
  have valid : d.data.Valid := by
    exact .object (List.pairwise_pair.mpr (by decide)) (List.forall_mem_cons.mpr
      ⟨.array (List.forall_mem_singleton.mpr (.integer (by decide))),
        List.forall_mem_singleton.mpr (.string "[")⟩)
  have integral : d.data.Integral :=
    .object (List.forall_mem_cons.mpr ⟨.array (List.forall_mem_singleton.mpr (.integer (-2))),
      List.forall_mem_singleton.mpr (.string "[")⟩)
  have depth : deepest (Persisted.text d) = 3 := by
    rw [Persisted.text, deepest_text]
    rfl
  have accepted : Persisted.ofText text = .ok d := by
    simp only [text, d]
    rfl
  have shallow : deepest (Persisted.text d) < 128 := by rw [depth]; decide
  have written := (RecordKind.lossless .definition).1 d
    (List.forall_mem_singleton.mpr ⟨valid, integral⟩) shallow
  have again := (RecordKind.lossless .definition).2 text d accepted
    (List.forall_mem_singleton.mpr integral)
  exact ⟨⟨valid, integral⟩, depth, written, accepted, again.2⟩

end SymbolAtlas
