import SymbolAtlas.Proofs.Json.MemberOrder
import SymbolAtlas.Proofs.Persist.Lossless

/-! The object that a record is read from may have its members in any order, and others of
unknown names between them: the record is the same, of whatever kind it is. What carries
this is that every field of every kind is read from its own value alone and stored in a
slot of its own. -/
namespace SymbolAtlas
open Json

/-! ### Fields read from their own values -/

theorem key_fieldsSettled : (Persisted.shape (ρ := SymbolKey)).FieldsSettled := by
  simp only [Shape.FieldsSettled, Persisted.shape, List.forall_mem_cons, List.not_mem_nil,
    false_implies, implies_true, and_true]
  and_intros <;> exact Field.of_settled string_settled _ _

theorem definition_fieldsSettled : (Persisted.shape (ρ := Definition)).FieldsSettled := by
  simp only [Shape.FieldsSettled, Persisted.shape, List.forall_mem_cons, List.not_mem_nil,
    false_implies, implies_true, and_true]
  and_intros <;> refine Field.of_settled ?_ _ _
  all_goals first
    | exact string_settled
    | exact word32_settled
    | exact boolean_settled
    | exact anyValue_settled

theorem reference_fieldsSettled : (Persisted.shape (ρ := Reference)).FieldsSettled := by
  simp only [Shape.FieldsSettled, Persisted.shape, List.forall_mem_cons, List.not_mem_nil,
    false_implies, implies_true, and_true]
  and_intros <;> refine Field.of_settled ?_ _ _
  all_goals first | exact string_settled | exact word32_settled | exact boolean_settled

theorem documentation_fieldsSettled : (Persisted.shape (ρ := Documentation)).FieldsSettled := by
  simp only [Shape.FieldsSettled, Persisted.shape, List.forall_mem_cons, List.not_mem_nil,
    false_implies, implies_true, and_true]
  and_intros <;> refine Field.of_settled ?_ _ _
  all_goals first | exact string_settled | exact word32_settled

theorem batch_fieldsSettled : (Persisted.shape (ρ := Batch)).FieldsSettled := by
  simp only [Shape.FieldsSettled, Persisted.shape, List.forall_mem_cons, List.not_mem_nil,
    false_implies, implies_true, and_true]
  and_intros <;> refine Field.of_settled (list_settled (Shape.read_settled ?_)) _ _
  · exact definition_fieldsSettled
  · exact reference_fieldsSettled
  · exact documentation_fieldsSettled

theorem sourceUnit_fieldsSettled : (Persisted.shape (ρ := SourceUnit)).FieldsSettled := by
  simp only [Shape.FieldsSettled, Persisted.shape, List.forall_mem_cons, List.not_mem_nil,
    false_implies, implies_true, and_true]
  and_intros <;> refine Field.of_settled ?_ _ _
  all_goals first | exact string_settled | exact list_settled string_settled

namespace RecordKind

theorem fieldsSettled (kind : RecordKind) : (Persisted.shape (ρ := kind.Record)).FieldsSettled := by
  cases kind with
  | key => exact key_fieldsSettled
  | definition => exact definition_fieldsSettled
  | reference => exact reference_fieldsSettled
  | documentation => exact documentation_fieldsSettled
  | batch => exact batch_fieldsSettled
  | conversionConfig =>
    exact List.forall_mem_singleton.mpr (Field.of_settled boolean_settled _ _)
  | normalizationConfig =>
    exact List.forall_mem_singleton.mpr (Field.of_settled boolean_settled _ _)
  | sourceUnit => exact sourceUnit_fieldsSettled
  | repoConfig =>
    simp only [Shape.FieldsSettled, Persisted.shape, List.forall_mem_cons, List.not_mem_nil,
      false_implies, implies_true, and_true]
    and_intros <;> exact Field.of_settled string_settled _ _

/-! ### Slots of their own -/

/-- Two fields of a record store in different places, those that are inlined as well. -/
theorem independent (kind : RecordKind) (nesting : Nat) :
    (Persisted.shape (ρ := kind.Record)).Independent nesting := by
  cases kind <;>
    simp only [Shape.Independent, Shape.slots, Shape.aside, Persisted.shape, Persist.inlinedKey,
      List.map_cons, List.map_nil, Option.getD_some, Option.getD_none, List.cons_append,
      List.nil_append, List.pairwise_cons, List.forall_mem_cons, List.not_mem_nil, false_implies,
      implies_true, and_true, List.Pairwise.nil]
  all_goals and_intros <;> apply Slot.Stores.apart
  all_goals first
    | exact Slot.Stores.field _ _ _ _
    | exact Slot.Stores.inlined _ _
    | skip
  -- What is left of each pair is that its two updates of the record change places.
  all_goals exact fun _ _ _ => rfl

/-! ### The members of an object -/

/-- The names that are known in an object of this kind, those of inlined fields included. -/
def fieldNames (kind : RecordKind) : List String := (Persisted.shape (ρ := kind.Record)).names

example : fieldNames .documentation =
    ["Format", "Data", "File", "Start", "End", "Repo", "UnitType", "Unit", "Path"] := rfl

/-- Every object that is read as a record can be taken apart into its members. Their order
makes no difference to the record, nor do further members of unknown names with values of
any kind; but no known name comes twice. -/
theorem read_in_any_order (kind : RecordKind) :
    (∀ (text : String) (r : kind.Record), Persisted.ofText text = .ok r →
      (skipBlanks text.toList).head? = some '\x7b' → ∃ o : ObjectText, text = o.text) ∧
    (∀ (o : ObjectText) (r : kind.Record), Persisted.ofText o.text = .ok r →
      ∀ extra members : List RawMember,
        (∀ m ∈ extra, m.name ∉ kind.fieldNames ∧ m.Readable (maxNesting - 1)) →
        members.Perm (o.members ++ extra) →
        Persisted.ofText ({ o with members } : ObjectText).text = .ok r) ∧
    (∀ (o : ObjectText), ∀ name ∈ kind.fieldNames, 2 ≤ (o.members.map (·.name)).count name →
      ∃ fault, Persisted.ofText (ρ := kind.Record) o.text = .error fault) := by
  have settled := kind.fieldsSettled
  have independent := kind.independent (maxNesting - 1)
  refine ⟨?_, ?_, ?_⟩
  · intro text r accepted object
    exact Shape.exists_objectText settled accepted object
  · intro o r accepted extra members others perm
    exact Shape.ofText_rearranged settled independent accepted (fun m member => (others m member).1)
      (fun m member => (others m member).2) perm
  · intro o name known repeated
    cases read : Persisted.ofText (ρ := kind.Record) o.text with
    | error fault => exact ⟨fault, rfl⟩
    | ok r => exact absurd read (Shape.ofText_repeated settled independent known repeated)

/-- A name may be spelled with escapes, and `name` is not `Name`. -/
theorem read_definition_in_another_order :
    let path : RawMember :=
      { spelled := "P\\u0061th\"".toList, name := "Path", value := "\"p\"".toList, after := [' '],
        decoded := rfl, outlined := rfl }
    let named : RawMember :=
      { spelled := "Name\"".toList, name := "Name", value := " \"n\"".toList,
        decoded := rfl, outlined := rfl }
    let unknown : RawMember :=
      { before := ['\n'], spelled := "name\"".toList, name := "name", between := [' '],
        value := "[-5, \x7b\x7d]".toList, decoded := rfl, outlined := rfl }
    let o : ObjectText := { members := [path, named] }
    let rearranged : ObjectText := { members := [named, unknown, path] }
    let repeated : ObjectText := { members := [path, named, path] }
    let d : Definition := { key := { path := "p" }, name := "n" }
    o.text = "\x7b\"P\\u0061th\":\"p\" ,\"Name\": \"n\"\x7d" ∧
    rearranged.text =
      "\x7b\"Name\": \"n\",\n\"name\" :[-5, \x7b\x7d],\"P\\u0061th\":\"p\" \x7d" ∧
    unknown.name ∉ fieldNames .definition ∧ "Path" ∈ fieldNames .definition ∧
    Persisted.ofText o.text = .ok d ∧ Persisted.ofText rearranged.text = .ok d ∧
    ∃ fault, Persisted.ofText (ρ := Definition) repeated.text = .error fault := by
  intro path named unknown o rearranged repeated d
  have foreign : unknown.name ∉ fieldNames .definition := by decide
  have known : "Path" ∈ fieldNames .definition := by decide
  have readable : unknown.Readable (maxNesting - 1) :=
    ⟨.array [.number (.integer (-5)), .object []], rfl⟩
  have text : o.text = "\x7b\"P\\u0061th\":\"p\" ,\"Name\": \"n\"\x7d" := rfl
  have accepted : Persisted.ofText o.text = .ok d := by
    rw [text]
    rfl
  have perm : ([named, unknown] ++ [path]).Perm ([path] ++ [named, unknown]) :=
    List.perm_append_comm
  obtain ⟨-, moved, once⟩ := RecordKind.read_in_any_order .definition
  exact ⟨text, rfl, foreign, known, accepted,
    moved o d accepted [unknown] _ (List.forall_mem_singleton.mpr ⟨foreign, readable⟩) perm,
    once repeated "Path" known (by decide)⟩

end RecordKind

end SymbolAtlas
