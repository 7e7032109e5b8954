import Mathlib.Data.List.Nodup
import SymbolAtlas.Proofs.Span.Visits

/-! Every place that a run comes to has one first visit, and the visits that follow
it there go by what it saw. So what is done at first visits is done once for each
place, and what decides about a visit is the same for all visits to its place. -/
namespace SymbolAtlas
open PathName

theorem visitsAfter_append (earlier first second : List Moment) :
    visitsAfter earlier (first ++ second) =
      visitsAfter earlier first ++ visitsAfter (earlier ++ first) second := by
  induction first generalizing earlier with
  | nil => simp [visitsAfter]
  | cons now rest ih => simp [visitsAfter, ih]

theorem map_now_visitsAfter (earlier later : List Moment) :
    (visitsAfter earlier later).map Visit.now = later := by
  induction later generalizing earlier with
  | nil => rfl
  | cons now later ih => rw [visitsAfter, List.map_cons, ih]

theorem length_visits (feeds : List Feed) :
    (visits feeds).length = (feeds.map (·.batch.size)).sum := by
  have moments : (visits feeds).length = (moments feeds).length := by
    rw [← map_now_visitsAfter [] (moments feeds), List.length_map, visits]
  rw [moments, SymbolAtlas.moments, List.length_flatMap]
  simp [Batch.extents, Batch.size, Nat.add_assoc]

/-- Every visit divides the run into what comes before it, which it has for its
history, and what comes after. -/
theorem visitsAfter_split {earlier later : List Moment} {v : Visit}
    (member : v ∈ visitsAfter earlier later) :
    ∃ before after, later = before ++ v.now :: after ∧ v.earlier = earlier ++ before ∧
      visitsAfter earlier later =
        visitsAfter earlier before ++ v :: visitsAfter (v.earlier ++ [v.now]) after := by
  induction later generalizing earlier with
  | nil => cases member
  | cons now later ih =>
    rcases List.mem_cons.mp member with rfl | member
    · exact ⟨[], later, rfl, (List.append_nil _).symm, rfl⟩
    · obtain ⟨before, after, rfl, history, split⟩ := ih member
      refine ⟨now :: before, after, rfl, by simp [history], ?_⟩
      rw [visitsAfter, split]
      rfl

/-- What came before a run came before each of its visits. -/
theorem earlier_of_mem_visitsAfter {earlier later : List Moment} {v : Visit}
    (member : v ∈ visitsAfter earlier later) : earlier ⊆ v.earlier := by
  obtain ⟨before, _, _, history, _⟩ := visitsAfter_split member
  rw [history]
  exact List.subset_append_left _ _

theorem mem_visitsAfter_of_split (earlier before after : List Moment) (now : Moment) :
    ⟨earlier ++ before, now⟩ ∈ visitsAfter earlier (before ++ now :: after) := by
  rw [visitsAfter_append]
  exact List.mem_append_right _ List.mem_cons_self

namespace Visit
variable {root : List Char} {later : List Moment} {u v : Visit}

/-- The visit has a place. -/
def IsNamed (v : Visit) : Prop := v.now.extent.file ≠ ""

instance (v : Visit) : Decidable v.IsNamed := inferInstanceAs (Decidable (_ ≠ _))

theorem IsNamed.liesAt (named : v.IsNamed) : v.now.extent.LiesAt root (v.place root) :=
  ⟨named, rfl⟩

theorem named_of_sight {seen : Sight} (decided : v.sight? root = some seen) : v.IsNamed := by
  intro fileless
  rw [sight?, if_pos fileless] at decided
  cases decided

theorem exists_sight (named : v.IsNamed) : ∃ seen, v.sight? root = some seen := by
  have here : v.now.extent.LiesAt root (v.place root) := named.liesAt
  rw [sight?, if_neg named, ← Option.isSome_iff_exists, firstSight?, Option.isSome_map,
    List.find?_isSome]
  exact ⟨v.now, by simp, by simpa using here⟩

/-- What decides about a visit is what the whole run saw first at its place. -/
theorem sight?_eq_firstSight? (member : v ∈ visitsAfter [] later) (named : v.IsNamed) :
    v.sight? root = firstSight? root (v.place root) later := by
  obtain ⟨before, after, rfl, history, _⟩ := visitsAfter_split member
  have here : v.now.extent.LiesAt root (v.place root) := named.liesAt
  rw [sight?, if_neg named, history, firstSight?, firstSight?, List.nil_append,
    List.find?_append, List.find?_append]
  simp [here]

/-- The places that a run comes to are those of its first visits. -/
theorem exists_first {m : Moment} {place : List Component} (member : m ∈ later)
    (lies : m.extent.LiesAt root place) :
    ∃ v ∈ visitsAfter [] later, v.IsNamed ∧ v.IsFirst root ∧ v.place root = place := by
  obtain ⟨first, found⟩ : ∃ first, later.find? (·.extent.LiesAt root place) = some first := by
    rw [← Option.isSome_iff_exists, List.find?_isSome]
    exact ⟨m, member, by simpa using lies⟩
  obtain ⟨there, before, after, rfl, none⟩ := List.find?_eq_some_iff_append.mp found
  obtain ⟨named, same⟩ : first.extent.LiesAt root place := by simpa using there
  refine ⟨⟨before, first⟩, mem_visitsAfter_of_split [] before after first, named, ?_, same⟩
  intro other earlier there
  rw [Visit.place, same] at there
  simpa [there] using none other earlier

/-- Two visits to one place are not both its first. -/
theorem not_first_again (named : v.IsNamed) (again : v.now ∈ u.earlier)
    (same : u.place root = v.place root) : ¬ u.IsFirst root := by
  intro first
  exact first v.now again (same ▸ named.liesAt)

end Visit

/-- The places of the first visits of a run. -/
def firstPlaces (root : List Char) (earlier later : List Moment) : List (List Component) :=
  ((visitsAfter earlier later).filter fun v => v.IsNamed ∧ v.IsFirst root).map (·.place root)

/-- No place has two first visits. -/
theorem firstPlaces_nodup (root : List Char) (earlier later : List Moment) :
    (firstPlaces root earlier later).Nodup := by
  induction later generalizing earlier with
  | nil => exact List.nodup_nil
  | cons now later ih =>
    have rest := ih (earlier ++ [now])
    rw [firstPlaces, visitsAfter, List.filter_cons]
    split
    · rename_i first
      rw [List.map_cons, List.nodup_cons]
      refine ⟨fun again => ?_, rest⟩
      obtain ⟨u, member, same⟩ := List.mem_map.mp again
      rw [List.mem_filter, decide_eq_true_eq] at member
      rw [decide_eq_true_eq] at first
      have later : now ∈ u.earlier :=
        earlier_of_mem_visitsAfter member.1 (List.mem_append_right _ (List.mem_singleton_self _))
      exact Visit.not_first_again (v := ⟨earlier, now⟩) first.1 later same member.2.2
    · exact rest

theorem mem_firstPlaces_iff {root : List Char} {later : List Moment} {place : List Component} :
    place ∈ firstPlaces root [] later ↔ ∃ m ∈ later, m.extent.LiesAt root place := by
  rw [firstPlaces, List.mem_map]
  constructor
  · rintro ⟨v, member, rfl⟩
    rw [List.mem_filter, decide_eq_true_eq] at member
    refine ⟨v.now, ?_, member.2.1.liesAt⟩
    rw [← map_now_visitsAfter [] later]
    exact List.mem_map_of_mem member.1
  · rintro ⟨m, member, lies⟩
    obtain ⟨v, visited, named, first, same⟩ := Visit.exists_first member lies
    exact ⟨v, by simp [visited, named, first], same⟩

end SymbolAtlas
