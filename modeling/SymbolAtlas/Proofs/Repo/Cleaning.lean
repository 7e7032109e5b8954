import SymbolAtlas.Proofs.Text.Splitting
import SymbolAtlas.Repo.Uri

/-! Cleaning keeps only ordinary segments of a path, each as it was given. The last
one may lose a suffix afterwards, and what is then left of it may be a dot segment:
only this one can need cleaning again. A path stays as it is exactly when all of
its segments are ordinary and no suffix can be taken off the last. -/
namespace SymbolAtlas.Repo

/-- A segment that stands for itself. -/
def Ordinary (segment : List Char) : Prop :=
  segment ≠ [] ∧ segment ≠ ['.'] ∧ segment ≠ ['.', '.']

instance (segment : List Char) : Decidable (Ordinary segment) :=
  inferInstanceAs (Decidable (_ ∧ _ ∧ _))

/-- A segment with a suffix that can be taken off. -/
def EndsInGit (segment : List Char) : Prop :=
  ∃ stem, stem ≠ [] ∧ segment = stem ++ ['.', 'g', 'i', 't']

/-- A segment that comes last in a path can stay as it is. -/
def Final (segment : List Char) : Prop := Ordinary segment ∧ ¬ EndsInGit segment

theorem dropGitSuffix_of_endsInGit {stem : List Char} (some : stem ≠ []) :
    dropGitSuffix (stem ++ ['.', 'g', 'i', 't']) = stem := by
  simp [dropGitSuffix, some]

theorem dropGitSuffix_of_not_endsInGit {segment : List Char} (plain : ¬ EndsInGit segment) :
    dropGitSuffix segment = segment := by
  unfold dropGitSuffix
  dsimp only
  rw [if_neg]
  rintro ⟨some, whole⟩
  exact plain ⟨_, some, whole⟩

theorem dropGitSuffix_eq_self_iff {segment : List Char} :
    dropGitSuffix segment = segment ↔ ¬ EndsInGit segment := by
  constructor
  · rintro kept ⟨stem, some, rfl⟩
    rw [dropGitSuffix_of_endsInGit some] at kept
    have lengths := congrArg List.length kept
    simp at lengths
  · exact dropGitSuffix_of_not_endsInGit

instance (segment : List Char) : Decidable (EndsInGit segment) :=
  decidable_of_iff (¬ dropGitSuffix segment = segment)
    ((not_congr dropGitSuffix_eq_self_iff).trans Classical.not_not)

instance (segment : List Char) : Decidable (Final segment) :=
  inferInstanceAs (Decidable (_ ∧ _))

/-- What is left of a segment is not empty and holds nothing new. -/
theorem dropGitSuffix_bounds {segment : List Char} (some : segment ≠ []) :
    dropGitSuffix segment ≠ [] ∧ dropGitSuffix segment ⊆ segment := by
  by_cases suffixed : EndsInGit segment
  · obtain ⟨stem, stemSome, rfl⟩ := suffixed
    rw [dropGitSuffix_of_endsInGit stemSome]
    exact ⟨stemSome, List.subset_append_left _ _⟩
  · rw [dropGitSuffix_of_not_endsInGit suffixed]
    exact ⟨some, List.Subset.refl _⟩

/-- What one segment does: it is kept, or does nothing, or takes away the latest. -/
theorem stepSegment_cases {kept after : List (List Char)} {segment : List Char}
    (step : stepSegment kept segment = .ok after) :
    (Ordinary segment ∧ after = segment :: kept) ∨
      (¬ Ordinary segment ∧ after = kept) ∨
      (¬ Ordinary segment ∧ ∃ latest, kept = latest :: after) := by
  unfold stepSegment at step
  by_cases silent : segment = [] ∨ segment = ['.']
  · rw [if_pos silent] at step
    cases step
    right
    left
    rcases silent with rfl | rfl
    · exact ⟨by decide, rfl⟩
    · exact ⟨by decide, rfl⟩
  · rw [if_neg silent] at step
    rw [not_or] at silent
    by_cases parent : segment = ['.', '.']
    · rw [if_pos parent] at step
      subst parent
      cases kept with
      | nil => cases step
      | cons latest below =>
        cases step
        exact .inr (.inr ⟨by decide, latest, rfl⟩)
    · rw [if_neg parent] at step
      cases step
      exact .inl ⟨⟨silent.1, silent.2, parent⟩, rfl⟩

theorem stepSegment_of_ordinary {segment : List Char} (ordinary : Ordinary segment)
    (kept : List (List Char)) : stepSegment kept segment = .ok (segment :: kept) := by
  obtain ⟨some, dot, parent⟩ := ordinary
  simp [stepSegment, some, dot, parent]

theorem fold_cons_iff {segment : List Char} {segments kept after : List (List Char)} :
    (segment :: segments).foldlM stepSegment kept = .ok after ↔
      ∃ next, stepSegment kept segment = .ok next ∧
        segments.foldlM stepSegment next = .ok after := by
  rw [List.foldlM_cons]
  cases stepSegment kept segment with
  | error cause =>
    constructor
    · intro run
      cases run
    · rintro ⟨next, step, run⟩
      cases step
  | ok next =>
    constructor
    · intro run
      exact ⟨next, rfl, run⟩
    · rintro ⟨next, step, run⟩
      cases step
      exact run

/-- Every segment that is kept was kept before or is an ordinary one of the path. -/
theorem mem_of_fold {segments kept after : List (List Char)}
    (run : segments.foldlM stepSegment kept = .ok after) {segment : List Char}
    (member : segment ∈ after) : segment ∈ kept ∨ Ordinary segment ∧ segment ∈ segments := by
  induction segments generalizing kept with
  | nil =>
    cases run
    exact .inl member
  | cons first rest ih =>
    obtain ⟨next, step, later⟩ := fold_cons_iff.mp run
    rcases ih later with before | ⟨ordinary, inside⟩
    · rcases stepSegment_cases step with ⟨ordinary, rfl⟩ | ⟨_, rfl⟩ | ⟨_, latest, rfl⟩
      · rcases List.mem_cons.mp before with rfl | older
        · exact .inr ⟨ordinary, List.mem_cons_self⟩
        · exact .inl older
      · exact .inl before
      · exact .inl (List.mem_cons_of_mem latest before)
    · exact .inr ⟨ordinary, List.mem_cons_of_mem first inside⟩

/-- As many segments as the path has are kept only if all of them are ordinary. -/
theorem length_fold_le {segments kept after : List (List Char)}
    (run : segments.foldlM stepSegment kept = .ok after) :
    after.length ≤ kept.length + segments.countP fun segment => Ordinary segment := by
  induction segments generalizing kept with
  | nil =>
    cases run
    simp
  | cons first rest ih =>
    obtain ⟨next, step, later⟩ := fold_cons_iff.mp run
    have bound := ih later
    rw [List.countP_cons]
    rcases stepSegment_cases step with ⟨ordinary, rfl⟩ | ⟨other, rfl⟩ | ⟨other, latest, rfl⟩
    · simp only [List.length_cons, ordinary, decide_true, if_true] at bound ⊢
      omega
    · omega
    · simp only [List.length_cons]
      omega

theorem fold_of_ordinary {segments : List (List Char)}
    (ordinary : ∀ segment ∈ segments, Ordinary segment) (kept : List (List Char)) :
    segments.foldlM stepSegment kept = .ok (segments.reverse ++ kept) := by
  induction segments generalizing kept with
  | nil => rfl
  | cons first rest ih =>
    rw [List.forall_mem_cons] at ordinary
    refine fold_cons_iff.mpr ⟨first :: kept, stepSegment_of_ordinary ordinary.1 kept, ?_⟩
    rw [ih ordinary.2, List.reverse_cons, List.append_assoc]
    rfl

/-- Cleaning resolves the segments, then takes a suffix off the last one left. -/
theorem cleanSegments_eq_ok_iff {path : List Char} {cleaned : List (List Char)} :
    cleanSegments path = .ok cleaned ↔
      ∃ kept, (Text.segments '/' path).foldlM stepSegment [] = .ok kept ∧
        (kept = [] ∧ cleaned = [] ∨
          ∃ last earlier, kept = last :: earlier ∧
            cleaned = earlier.reverse ++ [dropGitSuffix last]) := by
  rw [cleanSegments]
  cases finished : (Text.segments '/' path).foldlM stepSegment [] with
  | error cause => simp
  | ok kept =>
    cases kept with
    | nil => simp [eq_comm]
    | cons last earlier =>
      dsimp only
      rw [Except.ok.injEq, List.reverse_cons]
      constructor
      · rintro rfl
        exact ⟨_, rfl, .inr ⟨last, earlier, rfl, rfl⟩⟩
      · rintro ⟨kept, run, shape⟩
        cases run
        rcases shape with ⟨none, _⟩ | ⟨_, _, same, whole⟩
        · cases none
        · cases same
          exact whole.symm

/-- What cleaning gives: segments with something in them, taken from the path, of
which all but the last are ordinary. -/
theorem cleanSegments_segments {path : List Char} {cleaned : List (List Char)}
    (clean : cleanSegments path = .ok cleaned) :
    (∀ segment ∈ cleaned, segment ≠ [] ∧ '/' ∉ segment ∧ segment ⊆ path) ∧
      ∀ segment ∈ cleaned.dropLast, Ordinary segment := by
  obtain ⟨kept, run, ⟨_, rfl⟩ | ⟨last, earlier, rfl, rfl⟩⟩ := cleanSegments_eq_ok_iff.mp clean
  · simp
  · have taken : ∀ segment ∈ last :: earlier,
        Ordinary segment ∧ '/' ∉ segment ∧ segment ⊆ path := by
      intro segment member
      rcases mem_of_fold run member with before | ⟨ordinary, inside⟩
      · cases before
      · exact ⟨ordinary, Text.segment_parts inside⟩
    rw [List.forall_mem_cons] at taken
    obtain ⟨⟨ordinary, undivided, inside⟩, earlierTaken⟩ := taken
    obtain ⟨some, nothingNew⟩ := dropGitSuffix_bounds ordinary.1
    constructor
    · intro segment member
      rcases List.mem_append.mp member with older | latest
      · obtain ⟨olderOrdinary, rest⟩ := earlierTaken segment (List.mem_reverse.mp older)
        exact ⟨olderOrdinary.1, rest⟩
      · rw [List.mem_singleton.mp latest]
        exact ⟨some, fun slash => undivided (nothingNew slash),
          fun _ held => inside (nothingNew held)⟩
    · intro segment member
      rw [List.dropLast_concat] at member
      exact (earlierTaken segment (List.mem_reverse.mp member)).1

/-- A path stays as it is exactly when all its segments are ordinary and no suffix
can be taken off the last. -/
theorem cleanSegments_fixed_iff {path : List (List Char)} (undivided : ∀ s ∈ path, '/' ∉ s) :
    cleanSegments (path.flatMap ('/' :: ·)) = .ok path ↔
      (∀ segment ∈ path, Ordinary segment) ∧ ∀ last ∈ path.getLast?, ¬ EndsInGit last := by
  have split : Text.segments '/' (path.flatMap ('/' :: ·)) = [] :: path :=
    Text.segments_flatMap List.not_mem_nil undivided
  have leading : ∀ kept, ([] :: path).foldlM stepSegment [] = .ok kept ↔
      path.foldlM stepSegment [] = .ok kept := by
    intro kept
    rw [fold_cons_iff]
    simp [stepSegment]
  rw [cleanSegments_eq_ok_iff, split]
  simp only [leading]
  constructor
  · rintro ⟨kept, run, shape⟩
    have sameLength : kept.length = path.length := by
      rcases shape with ⟨rfl, rfl⟩ | ⟨last, earlier, rfl, rfl⟩
      · rfl
      · simp
    have bound := length_fold_le run
    have ordinary : ∀ segment ∈ path, Ordinary segment := by
      have most := List.countP_le_length (p := fun segment => Ordinary segment) (l := path)
      have all : path.countP (fun segment => Ordinary segment) = path.length := by
        simp only [List.length_nil] at bound
        omega
      simpa using List.countP_eq_length.mp all
    refine ⟨ordinary, ?_⟩
    rw [fold_of_ordinary ordinary] at run
    cases run
    rcases shape with ⟨_, rfl⟩ | ⟨last, earlier, reversed, whole⟩
    · simp
    · have again : path = earlier.reverse ++ [last] := by
        rw [← List.reverse_reverse path]
        simpa using congrArg List.reverse reversed
      rw [again] at whole ⊢
      have fixed : dropGitSuffix last = last := by simpa using whole.symm
      simpa using dropGitSuffix_eq_self_iff.mp fixed
  · rintro ⟨ordinary, plain⟩
    refine ⟨_, fold_of_ordinary ordinary [], ?_⟩
    rcases List.eq_nil_or_concat path with rfl | ⟨earlier, last, rfl⟩
    · exact .inl ⟨rfl, rfl⟩
    · right
      rw [List.concat_eq_append] at plain ⊢
      have kept : dropGitSuffix last = last :=
        dropGitSuffix_of_not_endsInGit (plain last (by simp))
      exact ⟨last, earlier.reverse, by simp, by simp [kept]⟩

end SymbolAtlas.Repo
