import SymbolAtlas.Persist
import SymbolAtlas.Proofs.Json.Held
import SymbolAtlas.Proofs.Json.Records

/-! Every way of leaving a field out agrees with what a missing field is read as:
where nothing is written, the record has the value already. -/
namespace SymbolAtlas
open Json Persist

/-! ### Following the members -/

section Reached
variable {ρ : Type} {shape : Shape ρ} {ms : List (String × Value)} {names : List String}
  {record : ρ} {aside : List (String × Value)} (reached : shape.Reached ms names record aside)
include reached

theorem Json.Shape.Reached.always (name s : String) {store : ρ → String → ρ}
    (found : shape.fields.find? (·.name = name) = some (.of name string store)) :
    shape.Reached (ms ++ Persist.always name s) (name :: names) (store record s) aside :=
  reached.field name (string_reads s) found

theorem Json.Shape.Reached.unlessEmpty (name s : String) {store : ρ → String → ρ}
    (found : shape.fields.find? (·.name = name) = some (.of name string store))
    (unset : store record "" = record) :
    shape.Reached (ms ++ Persist.unlessEmpty name s) (name :: names) (store record s) aside := by
  unfold Persist.unlessEmpty
  split
  · subst s; exact reached.leftOut unset
  · exact reached.always name s found

theorem Json.Shape.Reached.unlessZero (name : String) (n : UInt32) {store : ρ → UInt32 → ρ}
    (found : shape.fields.find? (·.name = name) = some (.of name word32 store))
    (unset : store record 0 = record) :
    shape.Reached (ms ++ Persist.unlessZero name n) (name :: names) (store record n) aside := by
  unfold Persist.unlessZero
  split
  · subst n; exact reached.leftOut unset
  · exact reached.field name (word32_reads n) found

theorem Json.Shape.Reached.ifSet (name : String) (b : Bool) {store : ρ → Bool → ρ}
    (found : shape.fields.find? (·.name = name) = some (.of name boolean store))
    (unset : store record false = record) :
    shape.Reached (ms ++ Persist.ifSet name b) (name :: names) (store record b) aside := by
  cases b with
  | false => exact reached.leftOut unset
  | true => exact reached.field name (boolean_reads true) found

theorem Json.Shape.Reached.unlessNull (name : String) {v : Value} (valid : v.Valid)
    (integral : v.Integral) {store : ρ → Value → ρ}
    (found : shape.fields.find? (·.name = name) = some (.of name anyValue store))
    (unset : store record .null = record) :
    shape.Reached (ms ++ Persist.unlessNull name v) (name :: names) (store record v) aside := by
  unfold Persist.unlessNull
  split
  · exact reached.leftOut unset
  · exact reached.field name (anyValue_reads valid integral) found

theorem Json.Shape.Reached.unlessNone {α : Type} [Persisted α] (name : String) {as : List α}
    (back : ∀ a ∈ as, Reads Persisted.read (Persisted.toValue a) a) {store : ρ → List α → ρ}
    (found : shape.fields.find? (·.name = name) = some (.of name (list Persisted.read) store))
    (unset : store record [] = record) :
    shape.Reached (ms ++ Persist.unlessNone name as) (name :: names) (store record as) aside := by
  unfold Persist.unlessNone
  split
  · obtain rfl := List.isEmpty_iff.mp ‹_›
    exact reached.leftOut unset
  · exact reached.field name (list_reads back) found

end Reached

/-! ### Brackets of the members -/

section Nesting
variable (name : String)

@[simp] theorem membersNesting_always (s : String) : membersNesting (always name s) = 0 := rfl

@[simp] theorem membersNesting_unlessEmpty (s : String) :
    membersNesting (unlessEmpty name s) = 0 := by
  unfold unlessEmpty
  split <;> rfl

@[simp] theorem membersNesting_unlessZero (n : UInt32) :
    membersNesting (unlessZero name n) = 0 := by
  unfold unlessZero
  split <;> rfl

@[simp] theorem membersNesting_ifSet (b : Bool) : membersNesting (ifSet name b) = 0 := by
  cases b <;> rfl

@[simp] theorem membersNesting_unlessNull (v : Value) :
    membersNesting (unlessNull name v) = v.nesting := by
  cases v <;> simp [unlessNull, membersNesting, Value.nesting]

theorem membersNesting_unlessNone_le {α : Type} [Persisted α] {as : List α} {n : Nat}
    (fits : ∀ a ∈ as, (Persisted.toValue a).nesting ≤ n) :
    membersNesting (unlessNone name as) ≤ n + 1 := by
  unfold unlessNone
  split
  · exact Nat.zero_le _
  · have items : itemsNesting (as.map Persisted.toValue) ≤ n :=
      itemsNesting_le_iff.mpr (List.forall_mem_map.mpr fits)
    simpa [membersNesting, Value.nesting] using items

end Nesting

end SymbolAtlas
