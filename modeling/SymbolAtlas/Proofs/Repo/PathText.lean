import SymbolAtlas.Proofs.Repo.Canonical

/-! One path can be written in many ways: with slashes and dots between its
segments, with a suffix on the last of them, and with slashes at the end. Cleaning
takes all of this away again. What is added between segments says nothing, and the
suffix is taken off the last segment that says something. -/
namespace SymbolAtlas.Repo

/-- A segment that says nothing. -/
def Silent (segment : List Char) : Prop := segment = [] ∨ segment = ['.']

instance (segment : List Char) : Decidable (Silent segment) :=
  inferInstanceAs (Decidable (_ ∨ _))

/-- Segments with slashes between them, and between any two of them any number of
segments that say nothing. -/
inductive Padded : List (List Char) → List Char → Prop where
  | single (segment : List Char) : Padded [segment] segment
  | cons (segment : List Char) {fillers : List (List Char)} {segments : List (List Char)}
      {text : List Char} (silent : ∀ filler ∈ fillers, Silent filler)
      (padded : Padded segments text) :
      Padded (segment :: segments) (segment ++ '/' :: (fillers.flatMap (· ++ ['/']) ++ text))

/-- The ways to write a path. -/
def WritesPath (segments : List (List Char)) (path : List Char) : Prop :=
  ∃ text suffix count, Padded segments text ∧ (suffix = [] ∨ suffix = gitSuffix) ∧
    path = text ++ suffix ++ List.replicate count '/'

theorem Silent.whole {segment : List Char} (silent : Silent segment) : '/' ∉ segment := by
  rcases silent with rfl | rfl
  · decide
  · decide

theorem fold_append {first second kept next : List (List Char)}
    (run : first.foldlM stepSegment kept = .ok next) :
    (first ++ second).foldlM stepSegment kept = second.foldlM stepSegment next := by
  rw [List.foldlM_append, run]
  rfl

theorem fold_of_silent {fillers : List (List Char)} (silent : ∀ filler ∈ fillers, Silent filler)
    (kept : List (List Char)) : fillers.foldlM stepSegment kept = .ok kept := by
  induction fillers with
  | nil => rfl
  | cons filler rest ih =>
    rw [List.forall_mem_cons] at silent
    exact fold_cons_iff.mpr ⟨kept, if_pos silent.1, ih silent.2⟩

/-- A slash before a path says nothing. -/
theorem cleanSegments_slash (path : List Char) :
    cleanSegments ('/' :: path) = cleanSegments path := by
  have split : Text.segments '/' ('/' :: path) = [[]] ++ Text.segments '/' path := by
    simp [Text.segments]
  have silent : [[]].foldlM stepSegment [] = .ok [] :=
    fold_of_silent (fun filler member => .inl (List.mem_singleton.mp member)) []
  rw [cleanSegments, cleanSegments, split, fold_append silent]

namespace Padded
variable {segments : List (List Char)} {text : List Char}

/-- Cleaning keeps all segments but the last whatever follows, and goes on with the
last one. -/
theorem fold (padded : Padded segments text)
    (ordinary : ∀ segment ∈ segments, '/' ∉ segment ∧ Ordinary segment) (tail : List Char)
    (kept : List (List Char)) :
    ∃ earlier last, segments = earlier ++ [last] ∧
      (Text.segments '/' (text ++ tail)).foldlM stepSegment kept =
        (Text.segments '/' (last ++ tail)).foldlM stepSegment (earlier.reverse ++ kept) := by
  induction padded generalizing kept with
  | single segment => exact ⟨[], segment, rfl, rfl⟩
  | @cons segment fillers segments text silent padded ih =>
    rw [List.forall_mem_cons] at ordinary
    obtain ⟨⟨whole, itself⟩, others⟩ := ordinary
    obtain ⟨earlier, last, rfl, later⟩ := ih others (segment :: kept)
    refine ⟨segment :: earlier, last, rfl, ?_⟩
    have split : Text.segments '/'
        ((segment ++ '/' :: (fillers.flatMap (· ++ ['/']) ++ text)) ++ tail) =
          [segment] ++ (fillers ++ Text.segments '/' (text ++ tail)) := by
      rw [List.append_assoc, List.cons_append, Text.segments_append_sep,
        Text.segments_of_not_mem whole, List.append_assoc,
        Text.segments_flatMap_append fun filler member => (silent filler member).whole]
    have first : [segment].foldlM stepSegment kept = .ok (segment :: kept) :=
      fold_cons_iff.mpr ⟨_, stepSegment_of_ordinary itself kept, rfl⟩
    rw [split, fold_append first, fold_append (fold_of_silent silent _), later,
      List.reverse_cons, List.append_assoc]
    rfl

/-- Nothing stands in the text but slashes, dots and what stands in the segments. -/
theorem chars (padded : Padded segments text) {c : Char} (member : c ∈ text) :
    c = '/' ∨ c = '.' ∨ ∃ segment ∈ segments, c ∈ segment := by
  induction padded with
  | single segment => exact .inr (.inr ⟨segment, List.mem_singleton_self _, member⟩)
  | @cons segment fillers segments text silent padded ih =>
    rcases List.mem_append.mp member with inFirst | later
    · exact .inr (.inr ⟨segment, List.mem_cons_self, inFirst⟩)
    · rcases List.mem_cons.mp later with slash | later
      · exact .inl slash
      · rcases List.mem_append.mp later with inFillers | inRest
        · obtain ⟨filler, inList, inside⟩ := List.mem_flatMap.mp inFillers
          rcases silent filler inList with rfl | rfl
          · exact .inl (List.mem_singleton.mp inside)
          · rcases List.mem_cons.mp inside with dot | slash
            · exact .inr (.inl dot)
            · exact .inl (List.mem_singleton.mp slash)
        · rcases ih inRest with slash | dot | ⟨other, inList, inside⟩
          · exact .inl slash
          · exact .inr (.inl dot)
          · exact .inr (.inr ⟨other, List.mem_cons_of_mem _ inList, inside⟩)

theorem begins (padded : Padded segments text) :
    ∃ first ∈ segments.head?, ∃ rest, text = first ++ rest := by
  cases padded with
  | single segment => exact ⟨text, rfl, [], (List.append_nil text).symm⟩
  | cons segment silent padded => exact ⟨segment, rfl, _, rfl⟩

end Padded

/-- Segments joined by slashes are a path with nothing added. -/
theorem writesPath_joinSegments {segments : List (List Char)} (some : segments ≠ []) :
    WritesPath segments (Text.joinSegments '/' segments) := by
  have padded : Padded segments (Text.joinSegments '/' segments) := by
    induction segments with
    | nil => exact absurd rfl some
    | cons first rest ih =>
      cases rest with
      | nil => exact .single first
      | cons second others =>
        exact .cons first (List.forall_mem_nil _) (ih (List.cons_ne_nil second others))
  exact ⟨_, [], 0, padded, .inl rfl, by simp⟩

/-- A segment with a suffix is too long for a dot segment. -/
theorem ordinary_append_gitSuffix (stem : List Char) : Ordinary (stem ++ gitSuffix) := by
  have long : 2 < (stem ++ gitSuffix).length := by
    rw [List.length_append]
    exact Nat.lt_add_left _ (by decide)
  refine ⟨?_, ?_, ?_⟩
  · intro same
    rw [same] at long
    exact absurd long (by decide)
  · intro same
    rw [same] at long
    exact absurd long (by decide)
  · intro same
    rw [same] at long
    exact absurd long (by decide)

/-- A last segment with the suffix is ordinary too, and loses nothing but the suffix. -/
theorem suffixed_last {last suffix : List Char} (ordinary : Ordinary last)
    (plain : ¬ EndsInGit last) (suffixed : suffix = [] ∨ suffix = gitSuffix) :
    Ordinary (last ++ suffix) ∧ dropGitSuffix (last ++ suffix) = last := by
  rcases suffixed with rfl | rfl
  · rw [List.append_nil]
    exact ⟨ordinary, dropGitSuffix_of_not_endsInGit plain⟩
  · exact ⟨ordinary_append_gitSuffix last, dropGitSuffix_of_endsInGit ordinary.1⟩

namespace WritesPath
variable {segments : List (List Char)} {path : List Char}

/-- However a path is written, cleaning finds its segments. -/
theorem clean (written : WritesPath segments path)
    (ordinary : ∀ segment ∈ segments, '/' ∉ segment ∧ Ordinary segment)
    (plain : ∀ last ∈ segments.getLast?, ¬ EndsInGit last) : cleanSegments path = .ok segments := by
  obtain ⟨text, suffix, count, padded, suffixed, rfl⟩ := written
  rw [List.append_assoc]
  obtain ⟨earlier, last, rfl, run⟩ :=
    padded.fold ordinary (suffix ++ List.replicate count '/') []
  obtain ⟨whole, itself⟩ := ordinary last (by simp)
  obtain ⟨spelled, dropped⟩ := suffixed_last itself (plain last (by simp)) suffixed
  have undivided : '/' ∉ last ++ suffix := by
    rcases suffixed with rfl | rfl
    · rwa [List.append_nil]
    · rw [List.mem_append, not_or]
      exact ⟨whole, by decide⟩
  have split : Text.segments '/' (last ++ (suffix ++ List.replicate count '/')) =
      (last ++ suffix) :: List.replicate count [] := by
    rw [← List.append_assoc, Text.segments_append_replicate undivided]
  have silent : ∀ filler ∈ List.replicate count ([] : List Char), Silent filler :=
    fun filler member => .inl (List.eq_of_mem_replicate member)
  refine cleanSegments_eq_ok_iff.mpr ⟨(last ++ suffix) :: earlier.reverse, ?_, .inr ?_⟩
  · rw [run, split, List.append_nil]
    exact fold_cons_iff.mpr ⟨_, stepSegment_of_ordinary spelled _, fold_of_silent silent _⟩
  · exact ⟨_, _, rfl, by rw [List.reverse_reverse, dropped]⟩

/-- Whatever holds of slashes, of the suffix and of the segments holds of the path. -/
theorem all_chars (written : WritesPath segments path) {Holds : Char → Prop}
    (slash : Holds '/') (suffix : ∀ c ∈ gitSuffix, Holds c)
    (inSegments : ∀ segment ∈ segments, ∀ c ∈ segment, Holds c) : ∀ c ∈ path, Holds c := by
  obtain ⟨text, added, count, padded, suffixed, rfl⟩ := written
  intro c member
  rcases List.mem_append.mp member with inside | slashes
  · rcases List.mem_append.mp inside with inText | inSuffix
    · rcases padded.chars inText with rfl | rfl | ⟨segment, inList, held⟩
      · exact slash
      · exact suffix '.' (by decide)
      · exact inSegments segment inList c held
    · rcases suffixed with rfl | rfl
      · cases inSuffix
      · exact suffix c inSuffix
  · rw [List.eq_of_mem_replicate slashes]
    exact slash

theorem begins (written : WritesPath segments path) :
    ∃ first ∈ segments.head?, ∃ rest, path = first ++ rest := by
  obtain ⟨text, suffix, count, padded, _, rfl⟩ := written
  obtain ⟨first, head, rest, rfl⟩ := padded.begins
  exact ⟨first, head, rest ++ suffix ++ List.replicate count '/', by simp⟩

end WritesPath
end SymbolAtlas.Repo
