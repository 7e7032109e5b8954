import SymbolAtlas.Span.Basic

/-! The canonical order of spans. Spans are compared part by part: first by where
they lie, then by what identifies their symbol, then by the rest. Texts are
compared code point by code point, which is the order of their UTF-8 bytes. All
parts take part but one: the notes of a definition are never compared.

Sorting is stable, so definitions that differ in their notes alone keep the order
in which they came. -/
namespace SymbolAtlas

/-- By file, then by start, then by stop. -/
def Extent.order : Extent → Extent → Ordering :=
  compareLex (compareOn Extent.file) <|
  compareLex (compareOn Extent.start) (compareOn Extent.stop)

/-- By repository, then by unit type, unit and path. -/
def SymbolKey.order : SymbolKey → SymbolKey → Ordering :=
  compareLex (compareOn SymbolKey.repo) <|
  compareLex (compareOn SymbolKey.unitType) <|
  compareLex (compareOn SymbolKey.unit) (compareOn SymbolKey.path)

instance : Ord Extent := ⟨Extent.order⟩
instance : Ord SymbolKey := ⟨SymbolKey.order⟩

/-- By extent and symbol, then by name, kind and visibility. -/
def Definition.order : Definition → Definition → Ordering :=
  compareLex (compareOn Definition.extent) <|
  compareLex (compareOn Definition.key) <|
  compareLex (compareOn Definition.name) <|
  compareLex (compareOn Definition.kind) (compareOn Definition.exported)

/-- By extent and target, then by whether it is the definition itself, then by
the unit that it occurs in. -/
def Reference.order : Reference → Reference → Ordering :=
  compareLex (compareOn Reference.extent) <|
  compareLex (compareOn Reference.target) <|
  compareLex (compareOn Reference.isDefinition) <|
  compareLex (compareOn Reference.repo) <|
  compareLex (compareOn Reference.unitType) (compareOn Reference.unit)

/-- By extent and symbol, then by format and text. -/
def Documentation.order : Documentation → Documentation → Ordering :=
  compareLex (compareOn Documentation.extent) <|
  compareLex (compareOn Documentation.key) <|
  compareLex (compareOn Documentation.format) (compareOn Documentation.text)

/-- The stable arrangement of a list by an order. -/
def sortedBy {α : Type} (order : α → α → Ordering) (xs : List α) : List α :=
  xs.mergeSort fun a b => (order a b).isLE

/-- Whether no element comes after one that it should precede. Neighbours are
enough to look at. -/
def isSortedBy {α : Type} (order : α → α → Ordering) : List α → Bool
  | [] => true
  | [_] => true
  | a :: b :: rest => (order a b).isLE && isSortedBy order (b :: rest)

/-- Each sequence in canonical order. -/
def Batch.sorted (batch : Batch) : Batch where
  definitions := sortedBy Definition.order batch.definitions
  references := sortedBy Reference.order batch.references
  documentation := sortedBy Documentation.order batch.documentation

/-- Whether each sequence is in canonical order already. -/
def Batch.isSorted (batch : Batch) : Bool :=
  isSortedBy Definition.order batch.definitions &&
    isSortedBy Reference.order batch.references &&
    isSortedBy Documentation.order batch.documentation

/-! The orders are total preorders, since comparing by a part is one and a
lexicographic combination of two is one. -/

instance : Std.TransCmp Extent.order := by unfold Extent.order; infer_instance
instance : Std.TransCmp SymbolKey.order := by unfold SymbolKey.order; infer_instance
instance : Std.TransOrd Extent := inferInstanceAs (Std.TransCmp Extent.order)
instance : Std.TransOrd SymbolKey := inferInstanceAs (Std.TransCmp SymbolKey.order)
instance : Std.TransCmp Definition.order := by unfold Definition.order; infer_instance
instance : Std.TransCmp Reference.order := by unfold Reference.order; infer_instance
instance : Std.TransCmp Documentation.order := by unfold Documentation.order; infer_instance

/-- Sorting loses no element and invents none. -/
theorem sortedBy_perm {α : Type} (order : α → α → Ordering) (xs : List α) :
    (sortedBy order xs).Perm xs := List.mergeSort_perm xs _

end SymbolAtlas
