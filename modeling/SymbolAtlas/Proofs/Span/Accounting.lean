import Mathlib.Data.Finset.Card
import SymbolAtlas.Proofs.Span.FirstVisits

/-! The report of a run accounts for all of its visits. Each of them is skipped,
reported or converted to its end, and never two of these. A place is indexed at its
first visit and not again, and a place that cannot be read is reported there and not
again, so what is counted visit by visit is counted place by place as well. -/
namespace SymbolAtlas
open PathName

namespace Visit
variable (root : List Char) (v : Visit)

/-- There was no file at the place, or nothing with bytes of its own. -/
def isVacant : Bool := v.sight? root = some .missing || v.sight? root = some .notRegular

/-- The place could not be read, and an earlier visit has been told. -/
def isRepeatedFailure : Bool :=
  match v.sight? root with
  | some (.unreadable _) => !decide (v.IsFirst root)
  | _ => false

/-- The bytes at the place were indexed. -/
def isIndexed : Bool := (v.sight? root).any Sight.isIndexed

/-- The bytes at the place were indexed, and they have every position that is set. -/
def isInRange : Bool :=
  match v.sight? root with
  | some (.indexed index) =>
    v.now.extent.positions.all fun position => position = 0 || position ≤ index.charCount
  | _ => false

end Visit

/-- A report that accounts for what becomes of the batches of a run. -/
structure Report.Accounts (report : Report) (root : List Char) (feeds : List Feed) : Prop where
  /-- Every span is left alone, reported, or converted to its end. -/
  spans : (feeds.map (·.batch.size)).sum =
    report.skipped + report.failures.length + (visits feeds).countP (·.isInRange root)
  /-- A span is left alone for one of three reasons. -/
  skipped : report.skipped =
    (visits feeds).countP (·.now.extent.file = "") + (visits feeds).countP (·.isVacant root) +
      (visits feeds).countP (·.isRepeatedFailure root)
  /-- Positions are counted when they are rewritten, whether or not their span is
  converted to its end. -/
  translated : report.translated = ((visits feeds).map (·.rewritten root)).sum
  /-- Every place is counted once, however many spans lie there. -/
  indexedFiles : report.indexedFiles =
    (((visits feeds).filter (·.isIndexed root)).map (·.place root)).toFinset.card
  /-- One entry for each span that fails, in the order in which the run comes to them. -/
  failures : report.failures = (visits feeds).filterMap (·.failure? root)
  /-- A place that cannot be read has one entry and no other. -/
  unreadableOnce : ∀ failure ∈ report.failures,
    (∀ position count, failure.error ≠ .outOfRange position count) →
      report.failures.filter (components ·.path.toList = components failure.path.toList) =
        [failure]

namespace Visit
variable {root : List Char} {later : List Moment} {u v : Visit}

theorem refusal?_eq_none_iff {index : PositionIndex} {e : Extent} :
    index.refusal? e = none ↔ ∀ position ∈ e.positions, position ≤ index.charCount := by
  simp [PositionIndex.refusal?]

/-- A visit is skipped, or has an entry in the report, or is converted to its end. -/
theorem one_of_three (root : List Char) (v : Visit) :
    1 = (v.isSkipped root).toNat + (v.failure? root).isSome.toNat +
      (v.isInRange root).toNat := by
  unfold isSkipped failure? complaint? isInRange
  cases v.sight? root with
  | none => rfl
  | some seen =>
    cases seen with
    | missing => rfl
    | notRegular => rfl
    | unreadable error => by_cases first : v.IsFirst root <;> simp [first]
    | indexed index =>
      have inRange : (v.now.extent.positions.all fun position =>
          position = 0 || position ≤ index.charCount) =
            (index.refusal? v.now.extent).isNone := by
        rw [Bool.eq_iff_iff, Option.isNone_iff_eq_none, refusal?_eq_none_iff, List.all_eq_true]
        refine forall₂_congr fun position _ => ?_
        rw [Bool.or_eq_true, decide_eq_true_eq, decide_eq_true_eq]
        exact or_iff_right_of_imp fun unset => unset ▸ UInt32.zero_le
      simp only [inRange, Option.isSome_map]
      cases index.refusal? v.now.extent <;> rfl

/-- A visit is skipped for one of three reasons. -/
theorem skipped_for_one (root : List Char) (v : Visit) :
    (v.isSkipped root).toNat = (decide (v.now.extent.file = "")).toNat +
      (v.isVacant root).toNat + (v.isRepeatedFailure root).toNat := by
  unfold isSkipped isVacant isRepeatedFailure
  by_cases fileless : v.now.extent.file = ""
  · have unseen : v.sight? root = none := sight?_of_fileless fileless
    simp [unseen, fileless]
  · obtain ⟨seen, decided⟩ : ∃ seen, v.sight? root = some seen := exists_sight fileless
    rw [decided]
    cases seen <;> simp [fileless]

/-- Only what cannot be read has a complaint that is not about a position. -/
theorem unreadable_of_complaint {error : SpanError} (complains : v.complaint? root = some error)
    (other : ∀ position count, error ≠ .outOfRange position count) :
    v.sight? root = some (.unreadable error) ∧ v.IsFirst root := by
  unfold complaint? at complains
  cases decided : v.sight? root with
  | none => simp [decided] at complains
  | some seen =>
    rw [decided] at complains
    cases seen with
    | missing => cases complains
    | notRegular => cases complains
    | unreadable told =>
      obtain ⟨first, rfl⟩ : v.IsFirst root ∧ told = error := by simpa using complains
      exact ⟨rfl, first⟩
    | indexed index =>
      obtain ⟨position, _, rfl⟩ := Option.map_eq_some_iff.mp complains
      exact absurd rfl (other position index.charCount)

theorem named_of_complaint {error : SpanError} (complains : v.complaint? root = some error) :
    v.IsNamed := by
  cases decided : v.sight? root with
  | none => simp [complaint?, decided] at complains
  | some seen => exact named_of_sight decided

/-- The entry of a visit is about its place. -/
theorem place_of_failure {failure : Failure} (failed : v.failure? root = some failure) :
    components failure.path.toList = v.place root := by
  obtain ⟨error, _, rfl⟩ := Option.map_eq_some_iff.mp failed
  simp [path, place, placeOf]

end Visit

theorem countP_eq_add {α : Type} (whole : α → Bool) {first second third : α → Bool}
    (divided : ∀ a, (whole a).toNat = (first a).toNat + (second a).toNat + (third a).toNat)
    (xs : List α) :
    xs.countP whole = xs.countP first + xs.countP second + xs.countP third := by
  have weight : ∀ (p : α → Bool) (a : α), (if p a = true then 1 else 0) = (p a).toNat := by
    intro p a
    cases p a <;> rfl
  induction xs with
  | nil => rfl
  | cons a rest ih =>
    rw [List.countP_cons, List.countP_cons, List.countP_cons, List.countP_cons, weight, weight,
      weight, weight, divided, ih]
    omega

/-- Where the bytes were indexed they were indexed at the first visit. -/
theorem countP_indexes (root : List Char) (later : List Moment) :
    (visitsAfter [] later).countP (·.indexes root) =
      (((visitsAfter [] later).filter (·.isIndexed root)).map (·.place root)).toFinset.card := by
  have told : ∀ v : Visit, v.indexes root = true ↔
      v.IsFirst root ∧ v.isIndexed root = true := by
    intro v
    rw [Visit.indexes, Bool.and_eq_true, decide_eq_true_eq, Visit.isIndexed]
  have named : ∀ v : Visit, v.isIndexed root = true → v.IsNamed := by
    intro v indexed
    cases decided : v.sight? root with
    | none => simp [Visit.isIndexed, decided] at indexed
    | some seen => exact Visit.named_of_sight decided
  have nodup : (((visitsAfter [] later).filter (·.indexes root)).map (·.place root)).Nodup := by
    refine (firstPlaces_nodup root [] later).sublist (List.Sublist.map _ ?_)
    refine List.monotone_filter_right _ fun v indexes => ?_
    rw [decide_eq_true_eq]
    exact ⟨named v ((told v).mp indexes).2, ((told v).mp indexes).1⟩
  rw [List.countP_eq_length_filter, ← List.length_map (·.place root),
    ← List.toFinset_card_of_nodup nodup]
  refine congrArg Finset.card (Finset.ext fun place => ?_)
  simp only [List.mem_toFinset, List.mem_map, List.mem_filter]
  constructor
  · rintro ⟨v, ⟨member, indexes⟩, same⟩
    exact ⟨v, ⟨member, ((told v).mp indexes).2⟩, same⟩
  · rintro ⟨v, ⟨member, indexed⟩, rfl⟩
    have came : v.now ∈ later := by
      rw [← map_now_visitsAfter [] later]
      exact List.mem_map_of_mem member
    have lies : v.now.extent.LiesAt root (v.place root) := (named v indexed).liesAt
    obtain ⟨u, visited, uNamed, first, same⟩ := Visit.exists_first came lies
    refine ⟨u, ⟨visited, (told u).mpr ⟨first, ?_⟩⟩, same⟩
    rw [Visit.isIndexed, Visit.sight?_eq_firstSight? visited uNamed, same,
      ← Visit.sight?_eq_firstSight? member (named v indexed)]
    exact indexed

/-- Without a complaint at a place there is no failure of it. -/
theorem failures_at_eq_nil {root : List Char} {place : List Component} {visited : List Visit}
    (silent : ∀ u ∈ visited, u.place root = place → u.complaint? root = none) :
    (visited.filterMap (·.failure? root)).filter (components ·.path.toList = place) = [] := by
  rw [List.filter_eq_nil_iff]
  intro entry listed
  obtain ⟨u, member, entered⟩ := List.mem_filterMap.mp listed
  obtain ⟨_, complains, _⟩ := Option.map_eq_some_iff.mp entered
  rw [Visit.place_of_failure entered, decide_eq_true_eq]
  intro same
  rw [silent u member same] at complains
  cases complains

/-- What cannot be read is reported at its first visit, and nothing else is reported
of its place. -/
theorem unreadable_once {root : List Char} {later : List Moment} {failure : Failure}
    (reported : failure ∈ (visitsAfter [] later).filterMap (·.failure? root))
    (other : ∀ position count, failure.error ≠ .outOfRange position count) :
    ((visitsAfter [] later).filterMap (·.failure? root)).filter
        (components ·.path.toList = components failure.path.toList) = [failure] := by
  obtain ⟨v, member, failed⟩ := List.mem_filterMap.mp reported
  obtain ⟨error, complains, rfl⟩ := Option.map_eq_some_iff.mp failed
  obtain ⟨unreadable, first⟩ := Visit.unreadable_of_complaint complains other
  have named := Visit.named_of_complaint complains
  have place := Visit.place_of_failure failed
  obtain ⟨before, after, _, history, split⟩ := visitsAfter_split member
  have silentBefore : ∀ u ∈ visitsAfter [] before, u.place root = v.place root →
      u.complaint? root = none := by
    intro u visited same
    cases uComplains : u.complaint? root with
    | none => rfl
    | some error =>
      have came : u.now ∈ v.earlier := by
        rw [history, List.nil_append, ← map_now_visitsAfter [] before]
        exact List.mem_map_of_mem visited
      have again := Visit.not_first_again (Visit.named_of_complaint uComplains) came same.symm
      exact absurd first again
  have silentAfter : ∀ u ∈ visitsAfter (v.earlier ++ [v.now]) after, u.place root = v.place root →
      u.complaint? root = none := by
    intro u visited same
    cases uComplains : u.complaint? root with
    | none => rfl
    | some error =>
      have came : v.now ∈ u.earlier := earlier_of_mem_visitsAfter visited
        (List.mem_append_right _ (List.mem_singleton_self _))
      have again := Visit.not_first_again named came same
      have inRun : u ∈ visitsAfter [] later := by
        rw [split]
        exact List.mem_append_right _ (List.mem_cons_of_mem _ visited)
      rw [Visit.complaint?,
        Visit.sight?_eq_firstSight? inRun (Visit.named_of_complaint uComplains), same,
        ← Visit.sight?_eq_firstSight? member named, unreadable] at uComplains
      simp [again] at uComplains
  rw [place, split, List.filterMap_append, List.filterMap_cons, failed, List.filter_append,
    List.filter_cons, failures_at_eq_nil silentBefore, failures_at_eq_nil silentAfter, place]
  simp

namespace Pass

/-- However many batches a pass is fed, and however the files change meanwhile, its
report accounts for all of their spans. -/
theorem run_accounts (root : List Char) (config : ConversionConfig) (feeds : List Feed) :
    (({ root, config } : Pass).run feeds).1.report.Accounts root feeds := by
  rw [run_report]
  constructor
  · have divided := countP_eq_add (fun _ => true) (Visit.one_of_three root) (visits feeds)
    rw [List.countP_true, length_visits] at divided
    rw [divided, List.length_filterMap_eq_countP]
  · exact countP_eq_add _ (Visit.skipped_for_one root) (visits feeds)
  · rfl
  · exact countP_indexes root (moments feeds)
  · rfl
  · exact fun failure reported => unreadable_once reported

/-- Two mentions in a file that cannot be read, one in a file that is missing, and one
that is converted only as far as its start. -/
example :
    let fs : FileSystem :=
      { status := fun place => if place = [.name ['m']] then .regular
          else if place = [.name ['x']] then .failed .linkLoop else .missing
        read := fun _ => .ok (Utf8.encode ['é', 'b']) }
    let mention (file : String) : Reference := { extent := { file, start := 1, stop := 3 } }
    let batch : Batch := { references := [mention "x", mention "m", mention "a", mention "./x"] }
    (({ root := [] } : Pass).run [⟨fs, batch⟩]).1.report =
      { translated := 1, skipped := 2, indexedFiles := 1
        failures := [⟨"x", .unreadable .linkLoop⟩, ⟨"m", .outOfRange 3 2⟩] } := by
  cbv

end Pass
end SymbolAtlas
