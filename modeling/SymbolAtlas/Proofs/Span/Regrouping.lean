import SymbolAtlas.Proofs.Span.Accounting
import SymbolAtlas.Proofs.Span.EmissionOrder
import SymbolAtlas.Proofs.Span.Trace

/-! While the files stay as they are, a run may be given its spans in any order and in
any number of batches. A first visit then sees what any other visit to its place would
see, so what decides about a span is the span alone; which of several spans in a place
is the first one decides only where a failure to read is reported, and under which of
the names of the place. The report adds up what happens at the places and what happens
to the spans, and neither sum depends on the order. -/
namespace SymbolAtlas
open PathName

/-- Batches that are fed one after another while the files stay as they are. -/
def steadyFeeds (fs : FileSystem) (batches : List Batch) : List Feed := batches.map (⟨fs, ·⟩)

/-- The spans of several batches as one batch. -/
def Batch.joined (batches : List Batch) : Batch where
  definitions := batches.flatMap Batch.definitions
  references := batches.flatMap Batch.references
  documentation := batches.flatMap Batch.documentation

/-- What failed and how. Two texts of one path are the same place. -/
def Failure.located (failure : Failure) : List Component × SpanError :=
  (components failure.path.toList, failure.error)

/-- Reports that differ in the order of their failures at most, and in the text by
which a place is called. -/
structure Report.SameTotals (first second : Report) : Prop where
  translated : first.translated = second.translated
  skipped : first.skipped = second.skipped
  indexedFiles : first.indexedFiles = second.indexedFiles
  failures : (first.failures.map Failure.located).Perm (second.failures.map Failure.located)

/-! ### What decides about a span -/

/-- A visit to an extent that is the only one of its run. -/
def Extent.alone (fs : FileSystem) (e : Extent) : Visit := ⟨[], ⟨fs, e⟩⟩

/-- The failure to read what is at a place, if that fails. -/
def FileSystem.faultsAt (fs : FileSystem) (place : List Component) :
    List (List Component × SpanError) :=
  match fs.sight place with
  | .unreadable error => [(place, error)]
  | _ => []

/-- The failure of a visit by the positions of its own extent, if they fail. -/
def Visit.refusals (root : List Char) (v : Visit) : List (List Component × SpanError) :=
  match v.sight? root with
  | some (.indexed index) => (index.refusal? v.now.extent).toList.map (v.place root, ·)
  | _ => []

/-- All extents that a run over several batches comes to. -/
def allExtents (batches : List Batch) : List Extent := batches.flatMap Batch.extents

section
variable {fs : FileSystem} {root : List Char} {batches : List Batch} {v : Visit}

theorem moments_steady (fs : FileSystem) (batches : List Batch) :
    moments (steadyFeeds fs batches) = (allExtents batches).map (⟨fs, ·⟩) := by
  rw [moments, steadyFeeds, allExtents, List.flatMap_map, List.map_flatMap]

/-- Every moment that a visit knows of has the same files. -/
theorem files_of_steady (member : v ∈ visits (steadyFeeds fs batches)) :
    ∀ m ∈ v.earlier ++ [v.now], m.files = fs := by
  obtain ⟨before, after, split, history, _⟩ := visitsAfter_split member
  intro m known
  have inRun : m ∈ moments (steadyFeeds fs batches) := by
    rw [split]
    rw [history, List.nil_append] at known
    rcases List.mem_append.mp known with known | known
    · exact List.mem_append_left _ known
    · rw [List.mem_singleton.mp known]
      exact List.mem_append_right _ List.mem_cons_self
  rw [moments_steady] at inRun
  obtain ⟨e, _, rfl⟩ := List.mem_map.mp inRun
  rfl

theorem now_files (member : v ∈ visits (steadyFeeds fs batches)) : v.now.files = fs :=
  files_of_steady member v.now (List.mem_append_right _ (List.mem_singleton_self _))

theorem sight?_alone (named : v.IsNamed) :
    (v.now.extent.alone fs).sight? root = some (fs.sight (v.place root)) := by
  have here : v.now.extent.LiesAt root (v.place root) := named.liesAt
  have first : firstSight? root (v.place root) [] = none := rfl
  exact (Visit.sight?_of_new (v := v.now.extent.alone fs) named first).1

/-- What decides about a visit is what would decide about its extent alone. -/
theorem sight?_of_steady (member : v ∈ visits (steadyFeeds fs batches)) :
    v.sight? root = (v.now.extent.alone fs).sight? root := by
  by_cases named : v.IsNamed
  · obtain ⟨seen, decided⟩ : ∃ seen, v.sight? root = some seen := Visit.exists_sight named
    have known := decided
    rw [Visit.sight?, if_neg named] at known
    obtain ⟨first, found, rfl⟩ := Option.map_eq_some_iff.mp known
    rw [decided, sight?_alone named,
      files_of_steady member first (List.mem_of_find?_eq_some found)]
  · have fileless : v.now.extent.file = "" := not_not.mp named
    have unseen : v.sight? root = none := Visit.sight?_of_fileless fileless
    rw [unseen]
    exact (Visit.sight?_of_fileless (v := v.now.extent.alone fs) fileless).symm

/-- What a visit comes to by its own moment and by what decides about it, its extent
alone would come to. -/
theorem map_visits {β : Type} {f : Visit → β} (root : List Char)
    (determined : ∀ v w : Visit, v.now = w.now → v.sight? root = w.sight? root → f v = f w) :
    (visits (steadyFeeds fs batches)).map f = (allExtents batches).map fun e => f (e.alone fs) := by
  have alone : ∀ v ∈ visits (steadyFeeds fs batches), f v = f ⟨[], v.now⟩ := by
    intro v member
    apply determined
    · rfl
    · rw [sight?_of_steady member, Extent.alone, ← now_files member]
  have nows : (visits (steadyFeeds fs batches)).map Visit.now =
      (allExtents batches).map (⟨fs, ·⟩) :=
    (map_now_visitsAfter [] _).trans (moments_steady fs batches)
  calc (visits (steadyFeeds fs batches)).map f
      = (visits (steadyFeeds fs batches)).map (fun v => f ⟨[], v.now⟩) :=
        List.map_congr_left alone
    _ = ((visits (steadyFeeds fs batches)).map Visit.now).map fun m => f ⟨[], m⟩ := by
        rw [List.map_map]
        rfl
    _ = (allExtents batches).map fun e => f (e.alone fs) := by
        rw [nows, List.map_map]
        rfl

/-- So a rearrangement of the extents rearranges what the visits come to. -/
theorem map_visits_perm {β : Type} {f : Visit → β} {first second : List Batch}
    (rearranged : (allExtents first).Perm (allExtents second)) (root : List Char)
    (determined : ∀ v w : Visit, v.now = w.now → v.sight? root = w.sight? root → f v = f w) :
    ((visits (steadyFeeds fs first)).map f).Perm ((visits (steadyFeeds fs second)).map f) := by
  rw [map_visits root determined, map_visits root determined]
  exact rearranged.map _

/-! ### What a run reports -/

/-- A visit reports what cannot be read, if it is the first one there, or what is wrong
with its own extent. -/
theorem located_failure (member : v ∈ visits (steadyFeeds fs batches)) :
    ((v.failure? root).map Failure.located).toList =
      (if v.IsNamed ∧ v.IsFirst root then fs.faultsAt (v.place root) else []) ++
        v.refusals root := by
  have here : components (v.path root).toList = v.place root := by
    simp [Visit.path, Visit.place, placeOf]
  have decided : v.sight? root = (v.now.extent.alone fs).sight? root := sight?_of_steady member
  by_cases named : v.IsNamed
  · rw [sight?_alone named] at decided
    unfold Visit.failure? Visit.complaint? Visit.refusals FileSystem.faultsAt
    rw [decided]
    cases fs.sight (v.place root) with
    | missing => simp
    | notRegular => simp
    | unreadable error =>
      by_cases first : v.IsFirst root <;> simp [named, first, Failure.located, here]
    | indexed index =>
      cases refused : index.refusal? v.now.extent <;> simp [refused, Failure.located, here]
  · have fileless : v.now.extent.file = "" := not_not.mp named
    have undecided : v.sight? root = none := Visit.sight?_of_fileless fileless
    rw [if_neg fun first => named first.1, Visit.failure?, Visit.complaint?, Visit.refusals,
      undecided]
    rfl

/-- The indexed files are the places that are seen to be indexed when they are first
come to. -/
theorem countP_indexes_steady (fs : FileSystem) (root : List Char) (batches : List Batch) :
    (visits (steadyFeeds fs batches)).countP (·.indexes root) =
      (firstPlaces root [] (moments (steadyFeeds fs batches))).countP
        fun place => (fs.sight place).isIndexed := by
  rw [firstPlaces, List.countP_map, List.countP_filter, ← visits]
  refine List.countP_congr fun v member => ?_
  rw [Visit.indexes, sight?_of_steady member]
  by_cases named : v.IsNamed
  · simp [sight?_alone named, named, and_comm]
  · have undecided : (v.now.extent.alone fs).sight? root = none :=
      Visit.sight?_of_fileless (not_not.mp named)
    simp [undecided, named]

/-- The failures are those of the places, one for each, and those of the extents. -/
theorem failures_steady (fs : FileSystem) (root : List Char) (batches : List Batch) :
    (((visits (steadyFeeds fs batches)).filterMap (·.failure? root)).map Failure.located).Perm
      ((firstPlaces root [] (moments (steadyFeeds fs batches))).flatMap fs.faultsAt ++
        (visits (steadyFeeds fs batches)).flatMap (·.refusals root)) := by
  have places : (firstPlaces root [] (moments (steadyFeeds fs batches))).flatMap fs.faultsAt =
      (visits (steadyFeeds fs batches)).flatMap fun v =>
        if v.IsNamed ∧ v.IsFirst root then fs.faultsAt (v.place root) else [] := by
    rw [firstPlaces_eq_flatMap, List.flatMap_assoc, ← visits]
    congr 1
    funext v
    by_cases first : v.IsNamed ∧ v.IsFirst root <;> simp [first]
  rw [places, List.map_filterMap, List.filterMap_eq_flatMap_toList,
    List.flatMap_congr fun v member => located_failure member]
  exact (List.flatMap_append_perm _ _ _).symm

/-- Every span is left alone, reported, or converted to its end. -/
theorem length_visits_steady (fs : FileSystem) (root : List Char) (batches : List Batch) :
    (visits (steadyFeeds fs batches)).length =
      (visits (steadyFeeds fs batches)).countP (·.isSkipped root) +
        (((visits (steadyFeeds fs batches)).filterMap (·.failure? root)).map
          Failure.located).length +
        ((visits (steadyFeeds fs batches)).map (·.isInRange root)).count true := by
  have divided := countP_eq_add (fun _ => true) (Visit.one_of_three root)
    (visits (steadyFeeds fs batches))
  rw [List.countP_true] at divided
  rw [divided, List.length_map, List.length_filterMap_eq_countP, List.count, List.countP_map]
  congr 1
  refine List.countP_congr fun v _ => ?_
  simp

end

section
variable {fs : FileSystem} {root : List Char} {first second : List Batch}

theorem firstPlaces_perm (rearranged : (allExtents first).Perm (allExtents second)) :
    (firstPlaces root [] (moments (steadyFeeds fs first))).Perm
      (firstPlaces root [] (moments (steadyFeeds fs second))) := by
  refine (List.perm_ext_iff_of_nodup (firstPlaces_nodup _ _ _) (firstPlaces_nodup _ _ _)).mpr ?_
  intro place
  rw [mem_firstPlaces_iff, mem_firstPlaces_iff, moments_steady, moments_steady]
  simp only [(rearranged.map _).mem_iff]

/-- While the files stay as they are, a report depends on the extents but not on their
order. -/
theorem report_sameTotals (rearranged : (allExtents first).Perm (allExtents second))
    (config other : ConversionConfig) :
    (({ root, config } : Pass).run (steadyFeeds fs first)).1.report.SameTotals
      (({ root, config := other } : Pass).run (steadyFeeds fs second)).1.report := by
  have places : (firstPlaces root [] (moments (steadyFeeds fs first))).Perm
      (firstPlaces root [] (moments (steadyFeeds fs second))) := firstPlaces_perm rearranged
  have failures : (((visits (steadyFeeds fs first)).filterMap (·.failure? root)).map
        Failure.located).Perm
      (((visits (steadyFeeds fs second)).filterMap (·.failure? root)).map Failure.located) := by
    refine (failures_steady fs root first).trans (.trans ?_ (failures_steady fs root second).symm)
    apply (places.flatMap_right _).append
    rw [List.flatMap_def, List.flatMap_def]
    apply (map_visits_perm rearranged root _).flatten
    intro v w now decided
    rw [Visit.refusals, Visit.refusals, Visit.place, Visit.place, now, decided]
  rw [Pass.run_report, Pass.run_report]
  refine ⟨?_, ?_, ?_, failures⟩
  · refine (map_visits_perm rearranged root fun v w now decided => ?_).sum_nat
    rw [Visit.rewritten, Visit.rewritten, now, decided]
  · have inRange : ((visits (steadyFeeds fs first)).map (·.isInRange root)).Perm
        ((visits (steadyFeeds fs second)).map (·.isInRange root)) := by
      refine map_visits_perm rearranged root fun v w now decided => ?_
      rw [Visit.isInRange, Visit.isInRange, now, decided]
    have lengths : ((visits (steadyFeeds fs first)).map fun _ => ()).Perm
        ((visits (steadyFeeds fs second)).map fun _ => ()) :=
      map_visits_perm rearranged root fun _ _ _ _ => rfl
    have length := lengths.length_eq
    have count := inRange.count_eq true
    have failed := failures.length_eq
    have firstLength := length_visits_steady fs root first
    have secondLength := length_visits_steady fs root second
    rw [List.length_map, List.length_map] at length
    -- What is skipped is what remains of all spans: which of several visits to a place
    -- is skipped depends on the order, so no map of the extents alone gives their number.
    dsimp only
    omega
  · dsimp only
    rw [countP_indexes_steady, countP_indexes_steady]
    exact places.countP_eq _

end

/-! ### What becomes of the spans -/

namespace Pass

/-- A batch does not change what a pass goes by. -/
theorem feed_converted (p : Pass) (fs : FileSystem) (batch : Batch) :
    (p.feed fs batch).1.converted fs = p.converted fs := by
  rw [feed_pass]
  generalize batch.extents = extents
  induction extents generalizing p with
  | nil => rfl
  | cons e rest ih => exact (ih (p.step fs e)).trans (fix_converted p fs e)

/-- While the files stay as they are, a pass converts every batch as it would convert
it first. -/
theorem run_steady (p : Pass) (fs : FileSystem) (batches : List Batch) :
    (p.run (steadyFeeds fs batches)).2 = batches.map (·.onExtents (p.converted fs)) := by
  induction batches generalizing p with
  | nil => rfl
  | cons batch rest ih =>
    have later := ih (p.feed fs batch).1
    rw [feed_converted] at later
    rw [List.map_cons, ← feed_batch, ← later]
    rfl

end Pass

namespace Batch
variable {first second : List Batch}

theorem joined_inBytes (fs : FileSystem) (root : List Char) (batches : List Batch) :
    joined (batches.map (·.inBytes fs root)) = (joined batches).inBytes fs root := by
  simp only [joined, inBytes, List.flatMap_map, List.map_flatMap]

/-- The extents of several batches are those of the one that they make up together. -/
theorem allExtents_perm_joined (batches : List Batch) :
    (allExtents batches).Perm (joined batches).extents := by
  unfold allExtents joined extents
  rw [List.map_flatMap, List.map_flatMap, List.map_flatMap]
  refine (List.flatMap_append_perm _ _ _).symm.trans (List.Perm.append_right _ ?_)
  exact (List.flatMap_append_perm _ _ _).symm

theorem extents_rearranged {first second : Batch} (rearranged : first.Rearranged second) :
    first.extents.Perm second.extents :=
  ((rearranged.definitions.map _).append (rearranged.references.map _)).append
    (rearranged.documentation.map _)

end Batch

namespace Pass

/-- While the files stay as they are, it makes no difference to a pass how its spans
are divided into batches, or in which order they come. The spans that come out are the
same, and so is all that is counted and all that fails. -/
theorem run_regrouped {first second : List Batch}
    (rearranged : (Batch.joined first).Rearranged (Batch.joined second)) (fs : FileSystem)
    (root : List Char) (config other : ConversionConfig) :
    (Batch.joined (({ root, config } : Pass).run (steadyFeeds fs first)).2).Rearranged
        (Batch.joined (({ root, config := other } : Pass).run (steadyFeeds fs second)).2) ∧
      (({ root, config } : Pass).run (steadyFeeds fs first)).1.report.SameTotals
        (({ root, config := other } : Pass).run (steadyFeeds fs second)).1.report := by
  constructor
  · have inBytes := Batch.inBytes_rearranged rearranged fs root
    rw [← Batch.joined_inBytes, ← Batch.joined_inBytes] at inBytes
    rw [run_steady, run_steady]
    exact inBytes
  · apply report_sameTotals
    refine (Batch.allExtents_perm_joined first).trans (.trans ?_
      (Batch.allExtents_perm_joined second).symm)
    exact Batch.extents_rearranged rearranged

/-- Two names of one file that cannot be read, and a position beyond the end of another
file. The file that cannot be read is reported by the name that comes first. -/
theorem run_regrouped_two_names :
    let fs : FileSystem :=
      { status := fun place => if place = [.root, .name ['m']] then .regular
          else if place = [.root, .name ['x']] then .failed .linkLoop else .missing
        read := fun _ => .ok (Utf8.encode ['é', 'b']) }
    let mention (file : String) : Reference := { extent := { file, start := 1, stop := 3 } }
    let first : List Batch := [{ references := [mention "x", mention "m"] },
      { references := [mention "./x"] }]
    let second : List Batch := [{ references := [mention "./x", mention "x", mention "m"] }]
    (Batch.joined first).Rearranged (Batch.joined second) ∧
      (({ root := ['/'] } : Pass).run (steadyFeeds fs first)).1.report.SameTotals
        (({ root := ['/'] } : Pass).run (steadyFeeds fs second)).1.report ∧
      (({ root := ['/'] } : Pass).run (steadyFeeds fs first)).1.report.failures =
        [⟨"/x", .unreadable .linkLoop⟩, ⟨"/m", .outOfRange 3 2⟩] ∧
      (({ root := ['/'] } : Pass).run (steadyFeeds fs second)).1.report.failures =
        [⟨"/./x", .unreadable .linkLoop⟩, ⟨"/m", .outOfRange 3 2⟩] := by
  intro fs mention first second
  have mentions : ([mention "x", mention "m"] ++ [mention "./x"]).Perm
      ([mention "./x"] ++ [mention "x", mention "m"]) := List.perm_append_comm
  have rearranged : (Batch.joined first).Rearranged (Batch.joined second) :=
    ⟨List.Perm.refl _, mentions, List.Perm.refl _⟩
  exact ⟨rearranged, (run_regrouped rearranged fs ['/'] {} {}).2, by decide, by decide⟩

end Pass
end SymbolAtlas
