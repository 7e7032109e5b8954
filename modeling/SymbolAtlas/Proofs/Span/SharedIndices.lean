import Mathlib.Data.Finset.Image
import SymbolAtlas.Proofs.Files.UnderRoot
import SymbolAtlas.Proofs.Span.Accounting

/-! Two file names lead to one place under a root exactly if they have the same
segments, apart from empty ones and dots. So a pass keeps one index for all names with
these segments: it goes by the same index for each of them, however far apart they come,
and builds it once. Parent segments are segments like any other here: none of them takes
back the segment before it. -/
namespace SymbolAtlas
open PathName

/-- The segments of a file name that say something. -/
def PathName.essential (file : List Char) : List (List Char) :=
  (Text.segments '/' file).filter fun segment => segment ≠ [] ∧ segment ≠ ['.']

namespace PathName

/-- A segment that says something is a step that is written as it stands. -/
theorem map_chars_ofSegment? (segment : List Char) : (ofSegment? segment).map Component.chars =
    if segment ≠ [] ∧ segment ≠ ['.'] then some segment else none := by
  unfold ofSegment?
  by_cases empty : segment = [] ∨ segment = ['.']
  · rw [if_pos empty, if_neg (not_and_or.mpr (by simpa using empty))]
    rfl
  · rw [if_neg empty, if_pos (not_or.mp empty)]
    split
    · rename_i parent
      rw [parent]
      rfl
    · rfl

theorem essential_eq (file : List Char) : essential file = (steps file).map Component.chars := by
  rw [essential, steps, List.map_filterMap, ← List.filterMap_eq_filter]
  refine List.filterMap_congr fun segment _ => ?_
  rw [map_chars_ofSegment?, Option.guard]
  simp only [decide_eq_true_eq]

theorem steps_eq (file : List Char) : steps file = (essential file).filterMap ofSegment? := by
  rw [essential, steps, List.filterMap_filter]
  refine List.filterMap_congr fun segment _ => ?_
  split
  · rfl
  · rename_i empty
    have unspoken := map_chars_ofSegment? segment
    rw [if_neg (by simpa using empty), Option.map_eq_none_iff] at unspoken
    exact unspoken

/-- Names make the same steps exactly if they have the same essential segments. -/
theorem steps_eq_iff {f g : List Char} : steps f = steps g ↔ essential f = essential g :=
  ⟨fun same => by rw [essential_eq, essential_eq, same],
    fun same => by rw [steps_eq, steps_eq, same]⟩

variable {root : List Char}

/-- The way to a name with these essential segments, under a root. -/
def wayTo (root : List Char) (segments : List (List Char)) : List Component :=
  components root ++ segments.filterMap ofSegment?

theorem components_resolve_eq_wayTo (rooted : root ≠ []) (file : List Char) :
    components (resolve root file) = wayTo root (essential file) := by
  rw [components_resolve, trail, if_neg rooted, wayTo, steps_eq]

theorem components_resolve_inj (rooted : root ≠ []) (f g : List Char) :
    components (resolve root f) = components (resolve root g) ↔ essential f = essential g := by
  rw [components_resolve, components_resolve, trail, trail, if_neg rooted, if_neg rooted,
    List.append_cancel_left_eq, steps_eq_iff]

end PathName

/-! ### What a run goes by -/

/-- What a run sees first at a place is what is there when a batch first names it. -/
theorem firstSight?_moments (root : List Char) (place : List Component) (feeds : List Feed) :
    firstSight? root place (moments feeds) =
      (firstLook root place feeds).map (·.sight place) := by
  induction feeds with
  | nil => rfl
  | cons feed later ih =>
    have rest : moments (feed :: later) =
        feed.batch.extents.map (Moment.mk feed.files) ++ moments later := rfl
    have inside : (feed.batch.extents.map (Moment.mk feed.files)).find?
        (·.extent.LiesAt root place) =
          (feed.batch.extents.find? (·.LiesAt root place)).map (Moment.mk feed.files) :=
      List.find?_map
    rw [firstSight?, rest, List.find?_append, inside, firstLook]
    cases found : feed.batch.extents.find? (·.LiesAt root place) with
    | some e =>
      have here := List.find?_some found
      rw [if_pos ⟨e, List.mem_of_find?_eq_some found, by simpa using here⟩]
      rfl
    | none =>
      have absent := List.find?_eq_none.mp found
      have elsewhere : ¬ ∃ e ∈ feed.batch.extents, e.LiesAt root place := by
        rintro ⟨e, member, lies⟩
        exact absent e member (by simpa using lies)
      rw [if_neg elsewhere, ← ih]
      rfl

namespace Pass
variable {root : List Char} {feeds : List Feed} {v : Visit}

/-- The index that the first look at a place finds, if a batch ever leads there and the
look finds one. -/
def firstIndex (root : List Char) (feeds : List Feed) (place : List Component) :
    Option PositionIndex :=
  (firstLook root place feeds).bind fun fs => remembered (fs.observe place)

/-- A pass that knows nothing yet goes by first looks alone. -/
theorem outlook_of_fresh (root : List Char) (config : ConversionConfig) (feeds : List Feed) :
    ({ root, config } : Pass).outlook feeds = firstIndex root feeds := rfl

theorem firstIndex_eq (place : List Component) :
    firstIndex root feeds place = (firstSight? root place (moments feeds)).bind Sight.kept := by
  rw [firstSight?_moments, firstIndex, Option.bind_map]
  simp only [FileSystem.observe_eq_outcome, Sight.remembered_outcome]
  rfl

/-- A visit is told of an index exactly if the first look at its place found one. -/
theorem isIndexed_iff (member : v ∈ visits feeds) : v.isIndexed root = true ↔
    v.now.extent.file ≠ "" ∧ (firstIndex root feeds (v.place root)).isSome = true := by
  by_cases named : v.now.extent.file = ""
  · simp [Visit.isIndexed, Visit.sight?_of_fileless named, named]
  · rw [Visit.isIndexed, Visit.sight?_eq_firstSight? member named, firstIndex_eq]
    cases firstSight? root (v.place root) (moments feeds) with
    | none => simp
    | some seen => cases seen <;> simp [named, Sight.isIndexed, Sight.kept]

/-- Under a root, the places where a run builds an index are the ways to the essential
segments of the names that it goes by an index for. -/
theorem indexed_places (rooted : root ≠ []) :
    (((visits feeds).filter (·.isIndexed root)).map (·.place root)).toFinset =
      ((((moments feeds).filter fun m => m.extent.file ≠ "" ∧
        (firstIndex root feeds (wayTo root (essential m.extent.file.toList))).isSome).map
          fun m => essential m.extent.file.toList).toFinset).image (wayTo root) := by
  ext place
  simp only [List.mem_toFinset, List.mem_map, List.mem_filter, Finset.mem_image,
    decide_eq_true_eq]
  constructor
  · rintro ⟨v, ⟨member, indexed⟩, rfl⟩
    have told := (isIndexed_iff member).mp indexed
    have way : v.place root = wayTo root (essential v.now.extent.file.toList) :=
      components_resolve_eq_wayTo rooted _
    rw [way] at told ⊢
    refine ⟨_, ⟨v.now, ⟨?_, told⟩, rfl⟩, rfl⟩
    rw [← map_now_visitsAfter [] (moments feeds)]
    exact List.mem_map_of_mem member
  · rintro ⟨_, ⟨m, ⟨member, told⟩, rfl⟩, rfl⟩
    rw [← map_now_visitsAfter [] (moments feeds)] at member
    obtain ⟨v, visited, rfl⟩ := List.mem_map.mp member
    have way : v.place root = wayTo root (essential v.now.extent.file.toList) :=
      components_resolve_eq_wayTo rooted _
    rw [← way] at told
    exact ⟨v, ⟨visited, (isIndexed_iff visited).mpr told⟩, way⟩

/-- Under a root, two names are looked up at one place exactly if they have the same
essential segments; and however many batches a pass is fed, and however the files change
meanwhile, it has one index for each list of these, or none: what the first look at the
way to them found. It converts every extent by the index for its name, and it builds as
many indices as there are such lists with one. -/
theorem run_shares_indices {root : List Char} (rooted : root ≠ []) (config : ConversionConfig)
    (feeds : List Feed) :
    (∀ f g : List Char, components (resolve root f) = components (resolve root g) ↔
      essential f = essential g) ∧
    let index (segments : List (List Char)) := firstIndex root feeds (wayTo root segments)
    (({ root, config } : Pass).run feeds).2 = (feeds.map fun feed =>
      feed.batch.onExtents fun e =>
        if e.file = "" then e else e.settle (index (essential e.file.toList))) ∧
    (({ root, config } : Pass).run feeds).1.report.indexedFiles =
      (((moments feeds).filter fun m => m.extent.file ≠ "" ∧
        (index (essential m.extent.file.toList)).isSome).map
          fun m => essential m.extent.file.toList).toFinset.card := by
  refine ⟨components_resolve_inj rooted, ?_, ?_⟩
  · rw [run_batches]
    refine List.map_congr_left fun feed _ => Batch.onExtents_congr fun e _ => ?_
    rw [settled, placeOf, outlook_of_fresh, components_resolve_eq_wayTo rooted]
  · rw [run_report, visits]
    dsimp only
    rw [countP_indexes, ← visits, indexed_places rooted]
    refine Finset.card_image_of_injOn fun one first other second same => ?_
    rw [Finset.mem_coe, List.mem_toFinset, List.mem_map] at first second
    obtain ⟨m, _, rfl⟩ := first
    obtain ⟨n, _, rfl⟩ := second
    rw [← components_resolve_eq_wayTo rooted, ← components_resolve_eq_wayTo rooted] at same
    exact (components_resolve_inj rooted _ _).mp same

/-- Two names of one place, the second of them when the file is gone: one index is built,
and both mentions are converted by what the file held at first. A parent segment is not
taken back. -/
theorem run_shares_index_of_two_names :
    let held : FileSystem :=
      { status := fun _ => .regular, read := fun _ => .ok (Utf8.encode ['é', 'b']) }
    let gone : FileSystem := { status := fun _ => .missing, read := fun _ => .ok [] }
    let mention (file : String) (start stop : UInt32) : Batch :=
      { references := [{ extent := { file, start, stop } }] }
    let feeds : List Feed := [⟨held, mention "a//b/." 1 2⟩, ⟨gone, mention "/./a/b" 1 2⟩]
    components (resolve ['r'] "a//b/.".toList) = components (resolve ['r'] "/./a/b".toList) ∧
      components (resolve ['r'] "a/x/../b".toList) ≠ components (resolve ['r'] "a/b".toList) ∧
      (({ root := ['r'] } : Pass).run feeds).2 = [mention "a//b/." 2 3, mention "/./a/b" 2 3] ∧
      (({ root := ['r'] } : Pass).run feeds).1.report.indexedFiles = 1 := by
  intro held gone mention feeds
  obtain ⟨keys, converted, built⟩ := run_shares_indices (List.cons_ne_nil 'r' []) {} feeds
  have found : firstIndex ['r'] feeds (wayTo ['r'] [['a'], ['b']]) = some ⟨#[(0, 1)], 2, 3⟩ := by
    decide
  have moved : PositionIndex.convert ⟨#[(0, 1)], 2, 3⟩ 1 = .ok (2, 1) ∧
      PositionIndex.convert ⟨#[(0, 1)], 2, 3⟩ 2 = .ok (3, 1) := by decide +kernel
  have settled (file : String) (named : file ≠ "")
      (segments : essential file.toList = [['a'], ['b']]) :
      (mention file 1 2).onExtents (fun e => if e.file = "" then e
        else e.settle (firstIndex ['r'] feeds (wayTo ['r'] (essential e.file.toList)))) =
          mention file 2 3 := by
    simp [mention, Batch.onExtents, onExtent, Spanned.extent, Spanned.withExtent, named, segments,
      found, Extent.settle, Extent.convert, moved]
  refine ⟨(keys _ _).mpr (by decide), fun same => absurd ((keys _ _).mp same) (by decide), ?_, ?_⟩
  · rw [converted, ← settled "a//b/." (by decide) (by decide),
      ← settled "/./a/b" (by decide) (by decide)]
    rfl
  · rw [built]
    decide

end Pass
end SymbolAtlas
