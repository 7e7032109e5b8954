import SymbolAtlas.Proofs.Span.CanonicalOrder

/-! Sorting leaves nothing open. What it gives has the spans that were given, no span
stands after one that it should precede, and spans that compare equal follow each other
as they were given; and nothing else is all of that, since the first span can only be
the first of those that no other precedes. So a batch that is in order already is what
sorting makes of it, and no other batch is left as it is. -/
namespace SymbolAtlas
open Std (ReflCmp OrientedCmp TransCmp)

/-- One sequence arranges another by an order, and is stable where the order leaves a
choice. -/
structure StableArrangement {α : Type} (order : α → α → Ordering) (given arranged : List α) :
    Prop where
  /-- Every element occurs as often as it was given. -/
  rearranged : arranged.Perm given
  /-- Every element compares less than, or equal to, all that come after it. -/
  ordered : arranged.Pairwise fun a b => (order a b).isLE
  /-- The elements that compare equal to one of them are in the order in which they were
  given. -/
  stable : ∀ a, arranged.filter (fun b => (order a b).isEq) = given.filter fun b => (order a b).isEq

section
variable {α : Type} {order : α → α → Ordering} [TransCmp order] {first second : List α}

/-- Elements that compare equal to the same one compare equal. -/
theorem equals_pairwise (a : α) (spans : List α) :
    (spans.filter fun b => (order a b).isEq).Pairwise fun b c => (order b c).isLE := by
  have alike : ∀ b ∈ spans.filter (fun b => (order a b).isEq), order a b = .eq := by
    intro b member
    exact Ordering.isEq_iff_eq_eq.mp (List.mem_filter.mp member).2
  refine List.pairwise_of_forall_mem_list fun b memberB c memberC => ?_
  have same : order b c = .eq :=
    TransCmp.eq_trans (OrientedCmp.eq_symm (alike b memberB)) (alike c memberC)
  rw [same]
  rfl

/-- Sorting does not move elements that compare equal past each other. -/
theorem sortedBy_filter_equals (a : α) (spans : List α) :
    (sortedBy order spans).filter (fun b => (order a b).isEq) =
      spans.filter fun b => (order a b).isEq := by
  have kept : (spans.filter fun b => (order a b).isEq).Sublist (sortedBy order spans) := by
    refine List.sublist_mergeSort (fun _ _ _ => TransCmp.isLE_trans) ?_ (equals_pairwise a spans)
      List.filter_sublist
    intro b c
    simpa using order_total b c
  have inside := kept.filter fun b => (order a b).isEq
  simp only [List.filter_filter, Bool.and_self] at inside
  exact (inside.eq_of_length ((sortedBy_perm order spans).filter _).length_eq.symm).symm

theorem sortedBy_stableArrangement (spans : List α) :
    StableArrangement order spans (sortedBy order spans) where
  rearranged := sortedBy_perm order spans
  ordered := sortedBy_pairwise spans
  stable := fun a => sortedBy_filter_equals a spans

/-- Ordered sequences are the same if the elements that compare equal follow each other
in the same way in both. -/
theorem eq_of_filter_equals (ordered : first.Pairwise fun a b => (order a b).isLE)
    (alsoOrdered : second.Pairwise fun a b => (order a b).isLE)
    (same : ∀ a, first.filter (fun b => (order a b).isEq) =
      second.filter fun b => (order a b).isEq) : first = second := by
  have holds : ∀ {a : α} {spans : List α}, a ∈ spans ↔
      a ∈ spans.filter fun b => (order a b).isEq := by
    intro a spans
    simp [ReflCmp.compare_self]
  induction first generalizing second with
  | nil =>
    cases second with
    | nil => rfl
    | cons b others =>
      have member := holds.mp (List.mem_cons_self (a := b) (l := others))
      rw [← same b] at member
      cases member
  | cons a rest ih =>
    have aMember : a ∈ second := by
      rw [holds, ← same a, ← holds]
      exact List.mem_cons_self
    cases second with
    | nil => cases aMember
    | cons b others =>
      have bMember : b ∈ a :: rest := by
        rw [holds, same b, ← holds]
        exact List.mem_cons_self
      -- Each head has to precede the other one, so they are the first of the same equals.
      have forwards : (order a b).isLE := by
        rcases List.mem_cons.mp bMember with rfl | later
        · exact ReflCmp.isLE_rfl
        · exact List.rel_of_pairwise_cons ordered later
      have backwards : (order b a).isLE := by
        rcases List.mem_cons.mp aMember with rfl | later
        · exact ReflCmp.isLE_rfl
        · exact List.rel_of_pairwise_cons alsoOrdered later
      have undecided : order a b = .eq := OrientedCmp.isLE_antisymm forwards backwards
      have heads : a = b := by
        have both := same a
        have itself : order a a = .eq := ReflCmp.compare_self
        simp only [List.filter_cons, itself, undecided, Ordering.isEq_eq, if_true] at both
        exact (List.cons.inj both).1
      subst heads
      refine congrArg (a :: ·) (ih ordered.of_cons alsoOrdered.of_cons fun c => ?_)
      have both := same c
      rw [List.filter_cons, List.filter_cons] at both
      split at both
      · exact (List.cons.inj both).2
      · exact both

/-- There is one stable arrangement, which is the sorted sequence. -/
theorem stableArrangement_iff {given arranged : List α} :
    StableArrangement order given arranged ↔ arranged = sortedBy order given := by
  constructor
  · intro arrangement
    refine eq_of_filter_equals arrangement.ordered (sortedBy_pairwise given) fun a => ?_
    rw [arrangement.stable a, sortedBy_filter_equals]
  · rintro rfl
    exact sortedBy_stableArrangement given

/-- A last element that precedes all others comes first, and they stay in their order. -/
theorem sortedBy_concat_of_lt {spans : List α} {b : α}
    (ordered : spans.Pairwise fun a b => (order a b).isLE) (least : ∀ a ∈ spans, order b a = .lt) :
    sortedBy order (spans ++ [b]) = b :: spans := by
  refine (stableArrangement_iff.mp ⟨(List.perm_append_singleton b spans).symm, ?_, ?_⟩).symm
  · exact List.pairwise_cons.mpr ⟨fun a member => by rw [least a member]; rfl, ordered⟩
  · intro a
    rw [List.filter_append]
    cases like : order a b with
    | lt => simp [like]
    | gt => simp [like]
    | eq =>
      -- What precedes all others compares equal to none of them.
      have others : spans.filter (fun c => (order a c).isEq) = [] := by
        rw [List.filter_eq_nil_iff]
        intro c member
        rw [TransCmp.lt_of_eq_of_lt like (least c member)]
        decide
      simp [like, others]

/-- A sequence is found to be in order exactly when sorting leaves it as it is. -/
theorem isSortedBy_iff_sortedBy_eq_self {spans : List α} :
    isSortedBy order spans = true ↔ sortedBy order spans = spans := by
  rw [isSortedBy_iff_pairwise]
  constructor
  · exact List.mergeSort_of_pairwise
  · intro same
    rw [← same]
    exact sortedBy_pairwise spans

end

namespace Batch

/-- Each sequence of a batch is arranged in the canonical order, and stable. -/
structure StablyArranged (batch arranged : Batch) : Prop where
  definitions : StableArrangement Definition.order batch.definitions arranged.definitions
  references : StableArrangement Reference.order batch.references arranged.references
  documentation : StableArrangement Documentation.order batch.documentation arranged.documentation

theorem stablyArranged_iff {batch arranged : Batch} :
    batch.StablyArranged arranged ↔ arranged = batch.sorted := by
  constructor
  · rintro ⟨definitions, references, documentation⟩
    rw [sorted, ← stableArrangement_iff.mp definitions, ← stableArrangement_iff.mp references,
      ← stableArrangement_iff.mp documentation]
  · rintro rfl
    exact ⟨sortedBy_stableArrangement _, sortedBy_stableArrangement _, sortedBy_stableArrangement _⟩

theorem isSorted_iff_sorted_eq_self {batch : Batch} :
    batch.isSorted = true ↔ batch.sorted = batch := by
  rw [isSorted, Bool.and_eq_true, Bool.and_eq_true, isSortedBy_iff_sortedBy_eq_self,
    isSortedBy_iff_sortedBy_eq_self, isSortedBy_iff_sortedBy_eq_self]
  cases batch
  simp [sorted, and_assoc]

/-- Sorting gives the one stable arrangement of a batch. A batch is found to be in order
if it is its own, and only then, so sorting a second time changes nothing. -/
theorem sorted_is_the_stable_arrangement (batch : Batch) :
    (∀ arranged : Batch, batch.StablyArranged arranged ↔ arranged = batch.sorted) ∧
      (batch.isSorted = true ↔ batch.sorted = batch) ∧ batch.sorted.sorted = batch.sorted := by
  refine ⟨fun arranged => stablyArranged_iff, isSorted_iff_sorted_eq_self, ?_⟩
  have own : batch.sorted.StablyArranged batch.sorted := by
    constructor
    · exact ⟨.refl _, sortedBy_pairwise _, fun _ => rfl⟩
    · exact ⟨.refl _, sortedBy_pairwise _, fun _ => rfl⟩
    · exact ⟨.refl _, sortedBy_pairwise _, fun _ => rfl⟩
  exact (stablyArranged_iff.mp own).symm

end Batch
end SymbolAtlas
