import SymbolAtlas.Proofs.Span.CanonicalOrder
import SymbolAtlas.Proofs.Text.ByteOrder

/-! Spans are compared part by part, and the first part in which two of them differ
decides. The parts of each kind are listed here in the precedence that they have, texts
being compared by their bytes. Every field is one of the parts but the notes of a
definition, so nothing else is left undecided, and each comparison is a total order. -/
namespace SymbolAtlas
open Std (ReflCmp OrientedCmp TransCmp)
open Utf8 (byteOrder codePointOrder)

/-- A part by which spans can be compared. -/
inductive Part (α : Type) where
  | text (of : α → String)
  | number (of : α → UInt32)
  | flag (of : α → Bool)

/-- Compares two spans by one part. A flag that is not set comes first. -/
def Part.compareBy {α : Type} (texts : String → String → Ordering) : Part α → α → α → Ordering
  | .text of, a, b => texts (of a) (of b)
  | .number of, a, b => compare (of a) (of b)
  | .flag of, a, b => compare (of a) (of b)

/-- The first part in which two spans differ decides. -/
def byParts {α : Type} (texts : String → String → Ordering) : List (Part α) → α → α → Ordering
  | [], _, _ => .eq
  | part :: later, a, b => (part.compareBy texts a b).then (byParts texts later a b)

def Definition.parts : List (Part Definition) :=
  [.text (·.extent.file), .number (·.extent.start), .number (·.extent.stop),
    .text (·.key.repo), .text (·.key.unitType), .text (·.key.unit), .text (·.key.path),
    .text (·.name), .text (·.kind), .flag (·.exported)]

def Reference.parts : List (Part Reference) :=
  [.text (·.extent.file), .number (·.extent.start), .number (·.extent.stop),
    .text (·.target.repo), .text (·.target.unitType), .text (·.target.unit), .text (·.target.path),
    .flag (·.isDefinition), .text (·.repo), .text (·.unitType), .text (·.unit)]

def Documentation.parts : List (Part Documentation) :=
  [.text (·.extent.file), .number (·.extent.start), .number (·.extent.stop),
    .text (·.key.repo), .text (·.key.unitType), .text (·.key.unit), .text (·.key.path),
    .text (·.format), .text (·.text)]

/-- An order is total, sees all in which elements can differ, and looks at their parts in
a certain precedence. -/
structure OrdersByParts {α : Type} (order : α → α → Ordering) (parts : List (Part α))
    (Same : α → α → Prop) : Prop where
  reflexive : ∀ a, order a a = .eq
  reversed : ∀ a b, order a b = (order b a).swap
  transitive : ∀ a b c, (order a b).isLE → (order b c).isLE → (order a c).isLE
  /-- Less, equal and greater are each handed on. -/
  handedOn : ∀ a b c outcome, order a b = outcome → order b c = outcome → order a c = outcome
  equal_iff : ∀ a b, order a b = .eq ↔ Same a b
  byBytes : ∀ a b, order a b = byParts byteOrder parts a b
  byCodePoints : ∀ a b, order a b = byParts codePointOrder parts a b

section
variable {α : Type} {order : α → α → Ordering} [TransCmp order] {parts : List (Part α)}
  {Same : α → α → Prop}

/-- Texts have one order, by which all parts that are texts are compared. -/
theorem ordersByParts_of_compare (equal_iff : ∀ {a b}, order a b = .eq ↔ Same a b)
    (listed : ∀ a b, order a b = byParts compare parts a b) : OrdersByParts order parts Same := by
  have codePoints : (compare : String → String → Ordering) = codePointOrder := by
    funext s t
    exact Utf8.compare_eq_codePointOrder s t
  have bytes : byteOrder = codePointOrder := by
    funext s t
    exact Utf8.byteOrder_eq_codePointOrder s t
  constructor
  · exact fun a => ReflCmp.compare_self
  · exact fun a b => OrientedCmp.eq_swap
  · exact fun a b c => TransCmp.isLE_trans
  · intro a b c outcome first second
    cases outcome with
    | lt => exact TransCmp.lt_trans first second
    | eq => exact TransCmp.eq_trans first second
    | gt => exact TransCmp.gt_trans first second
  · exact fun a b => equal_iff
  · rw [bytes, ← codePoints]
    exact listed
  · rw [← codePoints]
    exact listed

end

theorem definition_order_by_parts :
    OrdersByParts Definition.order Definition.parts Definition.SameButNotes := by
  refine ordersByParts_of_compare definition_order_eq_iff fun a b => ?_
  simp only [Definition.order, Definition.parts, compareLex, compareOn, extent_compare,
    symbolKey_compare, byParts, Part.compareBy, Ordering.then_assoc, Ordering.then_eq]

theorem reference_order_by_parts : OrdersByParts Reference.order Reference.parts (· = ·) := by
  refine ordersByParts_of_compare reference_order_eq_iff fun a b => ?_
  simp only [Reference.order, Reference.parts, compareLex, compareOn, extent_compare,
    symbolKey_compare, byParts, Part.compareBy, Ordering.then_assoc, Ordering.then_eq]

theorem documentation_order_by_parts :
    OrdersByParts Documentation.order Documentation.parts (· = ·) := by
  refine ordersByParts_of_compare documentation_order_eq_iff fun a b => ?_
  simp only [Documentation.order, Documentation.parts, compareLex, compareOn,
    extent_compare, symbolKey_compare, byParts, Part.compareBy, Ordering.then_assoc,
    Ordering.then_eq]

/-- Each kind of spans has a total order, which sees every field but the notes of a
definition and looks at file, start and stop before all other parts. Comparing texts
by their bytes comes to the same as comparing them code point by code point. -/
theorem spans_are_ordered_by_parts :
    OrdersByParts Definition.order Definition.parts Definition.SameButNotes ∧
      OrdersByParts Reference.order Reference.parts (· = ·) ∧
      OrdersByParts Documentation.order Documentation.parts (· = ·) ∧
      ∀ s t, byteOrder s t = codePointOrder s t :=
  ⟨definition_order_by_parts, reference_order_by_parts, documentation_order_by_parts,
    Utf8.byteOrder_eq_codePointOrder⟩

end SymbolAtlas
