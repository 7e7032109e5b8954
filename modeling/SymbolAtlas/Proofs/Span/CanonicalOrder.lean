import Mathlib.Data.List.Forall2
import Mathlib.Tactic.Tauto
import SymbolAtlas.Span.Order

/-! Two spans compare equal only if nothing in them differs but the notes of a
definition. So sorting leaves no choice for references and documentation, and for
definitions only the choice between those that differ in their notes: what the
sorted sequence is does not depend on the order in which the spans came. -/
namespace SymbolAtlas
open Std (TransCmp OrientedCmp LawfulEqOrd)

/-- Extents compare by their files, and within one file by their positions. -/
theorem extent_compare (a b : Extent) :
    compare a b =
      (compare a.file b.file).then ((compare a.start b.start).then (compare a.stop b.stop)) := rfl

theorem symbolKey_compare (a b : SymbolKey) :
    compare a b = (compare a.repo b.repo).then ((compare a.unitType b.unitType).then
      ((compare a.unit b.unit).then (compare a.path b.path))) := rfl

theorem extent_compare_eq_iff {a b : Extent} : compare a b = .eq ↔ a = b := by
  show Extent.order a b = .eq ↔ a = b
  simp only [Extent.order, compareLex_eq_eq, compareOn, Std.compare_eq_iff_eq]
  cases a
  cases b
  simp

theorem symbolKey_compare_eq_iff {a b : SymbolKey} : compare a b = .eq ↔ a = b := by
  show SymbolKey.order a b = .eq ↔ a = b
  simp only [SymbolKey.order, compareLex_eq_eq, compareOn, Std.compare_eq_iff_eq]
  cases a
  cases b
  simp

instance : LawfulEqOrd Extent := ⟨extent_compare_eq_iff.mp⟩
instance : LawfulEqOrd SymbolKey := ⟨symbolKey_compare_eq_iff.mp⟩

/-- Every field of a reference takes part in its order. -/
theorem reference_order_eq_iff {a b : Reference} : Reference.order a b = .eq ↔ a = b := by
  simp only [Reference.order, compareLex_eq_eq, compareOn, Std.compare_eq_iff_eq]
  cases a
  cases b
  simp only [Reference.mk.injEq]
  tauto

/-- Every field of documentation takes part in its order. -/
theorem documentation_order_eq_iff {a b : Documentation} :
    Documentation.order a b = .eq ↔ a = b := by
  simp only [Documentation.order, compareLex_eq_eq, compareOn, Std.compare_eq_iff_eq]
  cases a
  cases b
  simp only [Documentation.mk.injEq]
  tauto

/-- All of a definition but its notes. -/
def Definition.withoutNotes (d : Definition) : Definition := { d with data := .null }

/-- Definitions that differ in their notes at most. -/
def Definition.SameButNotes (a b : Definition) : Prop := a.withoutNotes = b.withoutNotes

/-- Every field of a definition but its notes takes part in its order. -/
theorem definition_order_eq_iff {a b : Definition} :
    Definition.order a b = .eq ↔ a.SameButNotes b := by
  simp only [Definition.order, compareLex_eq_eq, compareOn, Std.compare_eq_iff_eq,
    Definition.SameButNotes, Definition.withoutNotes]
  cases a
  cases b
  simp only [Definition.mk.injEq]
  tauto

section
variable {α β : Type} {order : α → α → Ordering} [TransCmp order] {first second : List α}

theorem order_total (a b : α) : (order a b).isLE ∨ (order b a).isLE := by
  cases smaller : (order a b).isLE with
  | true => exact .inl rfl
  | false =>
    have greater : order a b = .gt := by
      cases compared : order a b with
      | lt => simp [compared] at smaller
      | eq => simp [compared] at smaller
      | gt => rfl
    right
    rw [OrientedCmp.gt_iff_lt.mp greater]
    rfl

theorem sortedBy_pairwise (spans : List α) :
    (sortedBy order spans).Pairwise fun a b => (order a b).isLE := by
  apply List.pairwise_mergeSort
  · intro a b c
    exact TransCmp.isLE_trans
  · intro a b
    simpa using order_total a b

/-- Looking at neighbours is enough, since the order is transitive. -/
theorem isSortedBy_iff_pairwise {spans : List α} :
    isSortedBy order spans = true ↔ spans.Pairwise fun a b => (order a b).isLE := by
  fun_induction isSortedBy order spans with
  | case1 => simp
  | case2 a => simp
  | case3 a b rest ih =>
    rw [Bool.and_eq_true, ih, List.pairwise_cons (a := a)]
    refine and_congr_left fun later => ⟨fun smaller c member => ?_, fun all => all b (by simp)⟩
    rcases List.mem_cons.mp member with rfl | further
    · exact smaller
    · exact TransCmp.isLE_trans smaller (List.rel_of_pairwise_cons later further)

/-- A sequence whose elements the order tells apart has one arrangement. -/
theorem sortedBy_eq_of_perm (rearranged : first.Perm second)
    (telling : ∀ a ∈ first, ∀ b ∈ first, order a b = .eq → a = b) :
    sortedBy order first = sortedBy order second := by
  have sortedFirst := sortedBy_perm order first
  have sortedSecond := sortedBy_perm order second
  refine List.Perm.eq_of_pairwise ?_ (sortedBy_pairwise first) (sortedBy_pairwise second)
    ((sortedFirst.trans rearranged).trans sortedSecond.symm)
  intro a b inFirst inSecond forwards backwards
  have memberFirst : a ∈ first := sortedFirst.mem_iff.mp inFirst
  have memberSecond : b ∈ first := rearranged.mem_iff.mpr (sortedSecond.mem_iff.mp inSecond)
  exact telling a memberFirst b memberSecond (OrientedCmp.isLE_antisymm forwards backwards)

/-- In any case the arrangements agree in the part that the order looks at. -/
theorem sortedBy_map_eq_of_perm {part : α → β}
    (telling : ∀ {a b}, order a b = .eq ↔ part a = part b) (rearranged : first.Perm second) :
    (sortedBy order first).map part = (sortedBy order second).map part := by
  have sorted : ∀ spans : List α, ((sortedBy order spans).map part).Pairwise
      fun x y => ∃ a b, part a = x ∧ part b = y ∧ (order a b).isLE := by
    intro spans
    rw [List.pairwise_map]
    exact (sortedBy_pairwise spans).imp fun smaller => ⟨_, _, rfl, rfl, smaller⟩
  refine List.Perm.eq_of_pairwise ?_ (sorted first) (sorted second) ?_
  · rintro _ _ _ _ ⟨a, b, rfl, rfl, forwards⟩ ⟨c, d, middle, ends, backwards⟩
    have there : (order b c).isLE := by rw [telling.mpr middle.symm]; rfl
    have back : (order d a).isLE := by rw [telling.mpr ends]; rfl
    exact telling.mp (OrientedCmp.isLE_antisymm forwards
      (TransCmp.isLE_trans there (TransCmp.isLE_trans backwards back)))
  · exact (((sortedBy_perm order first).trans rearranged).trans
      (sortedBy_perm order second).symm).map part

end

theorem sorted_references_eq_of_perm {first second : List Reference}
    (rearranged : first.Perm second) :
    sortedBy Reference.order first = sortedBy Reference.order second :=
  sortedBy_eq_of_perm rearranged fun _ _ _ _ => reference_order_eq_iff.mp

theorem sorted_documentation_eq_of_perm {first second : List Documentation}
    (rearranged : first.Perm second) :
    sortedBy Documentation.order first = sortedBy Documentation.order second :=
  sortedBy_eq_of_perm rearranged fun _ _ _ _ => documentation_order_eq_iff.mp

/-- Sorted definitions agree position by position in all but their notes. -/
theorem sorted_definitions_agree_of_perm {first second : List Definition}
    (rearranged : first.Perm second) :
    List.Forall₂ Definition.SameButNotes (sortedBy Definition.order first)
      (sortedBy Definition.order second) := by
  have same : (sortedBy Definition.order first).map Definition.withoutNotes =
      (sortedBy Definition.order second).map Definition.withoutNotes :=
    sortedBy_map_eq_of_perm definition_order_eq_iff rearranged
  rw [← List.forall₂_eq_eq_eq, List.forall₂_map_left_iff, List.forall₂_map_right_iff] at same
  exact same

/-- Sorted definitions are the same where those that agree in all else agree in
their notes. -/
theorem sorted_definitions_eq_of_perm {first second : List Definition}
    (rearranged : first.Perm second)
    (agreed : ∀ a ∈ first, ∀ b ∈ first, a.SameButNotes b → a.data = b.data) :
    sortedBy Definition.order first = sortedBy Definition.order second := by
  refine sortedBy_eq_of_perm rearranged ?_
  intro a memberA b memberB undecided
  have same := definition_order_eq_iff.mp undecided
  have sameNotes := agreed a memberA b memberB same
  cases a
  cases b
  simp_all [Definition.SameButNotes, Definition.withoutNotes]

end SymbolAtlas
