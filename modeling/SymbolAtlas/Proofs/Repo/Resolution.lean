import SymbolAtlas.Proofs.Repo.PathText

/-! Cleaning resolves a path by its text alone. It fails where parent segments lead up
more often than ordinary ones have led down, whatever comes behind. Otherwise an ordinary
segment stays unless some run of segments right behind it leads up more often than down,
and the last one that stays loses its suffix. A segment that says nothing, or one that is
taken back at once, can be put in anywhere. -/
namespace SymbolAtlas.Repo

/-- How many segments of a run lead down, each to a place of its own. -/
def downs (run : List (List Char)) : Nat := run.countP fun segment => Ordinary segment

/-- How many segments of a run lead up. -/
def ups (run : List (List Char)) : Nat := run.count ['.', '.']

/-- A run of segments that leads up more often than down. -/
def Ascends (run : List (List Char)) : Prop := downs run < ups run

instance (run : List (List Char)) : Decidable (Ascends run) :=
  inferInstanceAs (Decidable (_ < _))

/-- The ordinary segments that no run right behind them takes away, in their order. -/
def standing : List (List Char) → List (List Char)
  | [] => []
  | segment :: rest =>
    if Ordinary segment ∧ ∀ run ∈ rest.inits, ¬ Ascends run then segment :: standing rest
    else standing rest

/-- Of two sequences of segments the second lacks the suffix of the last one, where
something stands before it. -/
inductive LosesSuffix : List (List Char) → List (List Char) → Prop where
  | none : LosesSuffix [] []
  | suffixed (earlier : List (List Char)) {stem : List Char} (some : stem ≠ []) :
      LosesSuffix (earlier ++ [stem ++ gitSuffix]) (earlier ++ [stem])
  | plain (earlier : List (List Char)) {last : List Char} (plain : ¬ EndsInGit last) :
      LosesSuffix (earlier ++ [last]) (earlier ++ [last])

/-- Segments that change nothing where they are put in. -/
inductive Idle : List (List Char) → Prop where
  | empty : Idle [[]]
  | dot : Idle [['.']]
  | detour (segment : List Char) (ordinary : Ordinary segment) (whole : '/' ∉ segment) :
      Idle [segment, ['.', '.']]

/-- How many of the segments kept before them these take away. -/
def ascent : List (List Char) → Nat
  | [] => 0
  | segment :: rest =>
    if Ordinary segment then ascent rest - 1
    else if segment = ['.', '.'] then ascent rest + 1
    else ascent rest

theorem segment_cases (segment : List Char) :
    Ordinary segment ∨ segment = ['.', '.'] ∨ Silent segment := by
  by_cases silent : Silent segment
  · exact .inr (.inr silent)
  · by_cases parent : segment = ['.', '.']
    · exact .inr (.inl parent)
    · rw [Silent, not_or] at silent
      exact .inl ⟨silent.1, silent.2, parent⟩

theorem Silent.not_ordinary {segment : List Char} (silent : Silent segment) :
    ¬ Ordinary segment ∧ segment ≠ ['.', '.'] := by
  rcases silent with rfl | rfl
  · decide
  · decide

section Counting
variable {segment : List Char} (rest : List (List Char))

theorem counts_of_ordinary (ordinary : Ordinary segment) :
    downs (segment :: rest) = downs rest + 1 ∧ ups (segment :: rest) = ups rest ∧
      ascent (segment :: rest) = ascent rest - 1 :=
  ⟨List.countP_cons_of_pos (by simpa using ordinary), List.count_cons_of_ne ordinary.2.2,
    if_pos ordinary⟩

theorem counts_of_parent :
    downs (['.', '.'] :: rest) = downs rest ∧ ups (['.', '.'] :: rest) = ups rest + 1 ∧
      ascent (['.', '.'] :: rest) = ascent rest + 1 :=
  ⟨List.countP_cons_of_neg (by decide), List.count_cons_self, rfl⟩

theorem counts_of_silent (silent : Silent segment) :
    downs (segment :: rest) = downs rest ∧ ups (segment :: rest) = ups rest ∧
      ascent (segment :: rest) = ascent rest := by
  obtain ⟨plain, other⟩ := silent.not_ordinary
  refine ⟨List.countP_cons_of_neg (by simpa using plain), List.count_cons_of_ne other, ?_⟩
  rw [ascent, if_neg plain, if_neg other]

end Counting

/-- Some first segments lead up beyond a depth exactly when all of them together take
away more than that. -/
theorem exists_prefix_iff (segments : List (List Char)) (depth : Nat) :
    (∃ run, run <+: segments ∧ depth + downs run < ups run) ↔ depth < ascent segments := by
  induction segments generalizing depth with
  | nil => simp [downs, ups, ascent]
  | cons segment rest ih =>
    have longer : (∃ run, run <+: segment :: rest ∧ depth + downs run < ups run) ↔
        ∃ run, run <+: rest ∧ depth + downs (segment :: run) < ups (segment :: run) := by
      simp only [List.prefix_cons_iff]
      constructor
      · rintro ⟨_, rfl | ⟨run, rfl, first⟩, exceeds⟩
        · cases exceeds
        · exact ⟨run, first, exceeds⟩
      · rintro ⟨run, first, exceeds⟩
        exact ⟨_, .inr ⟨run, rfl, first⟩, exceeds⟩
    rw [longer]
    rcases segment_cases segment with ordinary | rfl | silent
    · simp only [counts_of_ordinary _ ordinary]
      rw [Nat.lt_sub_iff_add_lt, ← ih]
      exact exists_congr fun run => and_congr_right fun _ => by omega
    · simp only [counts_of_parent]
      cases depth with
      | zero => exact iff_of_true ⟨[], List.nil_prefix, Nat.succ_pos _⟩ (Nat.succ_pos _)
      | succ depth =>
        rw [Nat.succ_lt_succ_iff, ← ih]
        exact exists_congr fun run => and_congr_right fun _ => by omega
    · simp only [counts_of_silent _ silent]
      exact ih depth

theorem exists_ascends_iff (segments : List (List Char)) :
    (∃ run, run <+: segments ∧ Ascends run) ↔ 0 < ascent segments := by
  rw [← exists_prefix_iff]
  simp only [Nat.zero_add, Ascends]

theorem standing_of_other {segment : List Char} (rest : List (List Char))
    (other : ¬ Ordinary segment) : standing (segment :: rest) = standing rest :=
  if_neg (mt And.left other)

/-- An ordinary segment stays unless the segments behind it take one away. -/
theorem standing_of_ordinary {segment : List Char} (rest : List (List Char))
    (ordinary : Ordinary segment) :
    standing (segment :: rest) =
      if ascent rest = 0 then segment :: standing rest else standing rest := by
  have level : (∀ run ∈ rest.inits, ¬ Ascends run) ↔ ascent rest = 0 := by
    rw [← Nat.le_zero, ← Nat.not_lt, ← exists_ascends_iff]
    simp [List.mem_inits]
  simp only [standing, ordinary, true_and, level]

theorem standing_sublist (segments : List (List Char)) : (standing segments).Sublist segments := by
  induction segments with
  | nil => exact List.Sublist.slnil
  | cons segment rest ih =>
    rw [standing]
    split
    · exact ih.cons_cons segment
    · exact ih.cons segment

/-- What the segments of a path do to those kept before them: they take some of the
latest away, or fail where there are not as many, and put their own on top. -/
theorem fold_eq (segments kept : List (List Char)) :
    segments.foldlM stepSegment kept =
      if kept.length < ascent segments then .error .escapesRoot
      else .ok ((standing segments).reverse ++ kept.drop (ascent segments)) := by
  induction segments generalizing kept with
  | nil => rfl
  | cons segment rest ih =>
    rw [List.foldlM_cons]
    rcases segment_cases segment with ordinary | rfl | silent
    · rw [stepSegment_of_ordinary ordinary, standing_of_ordinary rest ordinary,
        (counts_of_ordinary rest ordinary).2.2]
      change rest.foldlM stepSegment (segment :: kept) = _
      rw [ih, List.length_cons]
      cases ascent rest with
      | zero => simp
      | succ count => simp
    · rw [standing_of_other rest (by decide), (counts_of_parent rest).2.2]
      cases kept with
      | nil => simp [stepSegment, bind, Except.bind]
      | cons latest below =>
        change rest.foldlM stepSegment below = _
        rw [ih]
        simp
    · have quiet : stepSegment kept segment = .ok kept := if_pos silent
      rw [quiet, standing_of_other rest silent.not_ordinary.1, (counts_of_silent rest silent).2.2]
      exact ih kept

theorem losesSuffix_reverse_iff {kept cleaned : List (List Char)} :
    LosesSuffix kept.reverse cleaned ↔
      kept = [] ∧ cleaned = [] ∨ ∃ last earlier, kept = last :: earlier ∧
        cleaned = earlier.reverse ++ [dropGitSuffix last] := by
  constructor
  · intro loses
    generalize same : kept.reverse = segments at loses
    cases loses with
    | none => exact .inl ⟨List.reverse_eq_nil_iff.mp same, rfl⟩
    | @suffixed earlier stem some =>
      refine .inr ⟨stem ++ gitSuffix, earlier.reverse, ?_, ?_⟩
      · rw [← List.reverse_reverse kept, same, List.reverse_concat]
      · rw [List.reverse_reverse, gitSuffix, dropGitSuffix_of_endsInGit some]
    | @plain earlier last plain =>
      refine .inr ⟨last, earlier.reverse, ?_, ?_⟩
      · rw [← List.reverse_reverse kept, same, List.reverse_concat]
      · rw [List.reverse_reverse, dropGitSuffix_of_not_endsInGit plain]
  · rintro (⟨rfl, rfl⟩ | ⟨last, earlier, rfl, rfl⟩)
    · exact .none
    · rw [List.reverse_cons]
      by_cases suffixed : EndsInGit last
      · obtain ⟨stem, some, rfl⟩ := suffixed
        rw [dropGitSuffix_of_endsInGit some]
        exact .suffixed earlier.reverse some
      · rw [dropGitSuffix_of_not_endsInGit suffixed]
        exact .plain earlier.reverse suffixed

/-- A path can be cleaned when none of its first segments ascend, and then to the
segments that stay. -/
theorem cleanSegments_eq_ok_iff_standing {path : List Char} {cleaned : List (List Char)} :
    cleanSegments path = .ok cleaned ↔
      (¬ ∃ run, run <+: Text.segments '/' path ∧ Ascends run) ∧
        LosesSuffix (standing (Text.segments '/' path)) cleaned := by
  rw [cleanSegments_eq_ok_iff, fold_eq, exists_ascends_iff]
  by_cases ascends : 0 < ascent (Text.segments '/' path)
  · simp [ascends]
  · rw [← List.reverse_reverse (standing _), losesSuffix_reverse_iff]
    simp [ascends]

theorem cleanSegments_eq_error_iff {path : List Char} {cause : UriError} :
    cleanSegments path = .error cause ↔
      cause = .escapesRoot ∧ ∃ run, run <+: Text.segments '/' path ∧ Ascends run := by
  rw [exists_ascends_iff, cleanSegments, fold_eq, List.length_nil]
  by_cases ascends : 0 < ascent (Text.segments '/' path)
  · simp [ascends, eq_comm]
  · rw [if_neg ascends]
    cases (standing (Text.segments '/' path)).reverse ++
      List.drop (ascent (Text.segments '/' path)) [] with
    | nil => simp [ascends]
    | cons last earlier => simp [ascends]

theorem Idle.fold {inserted : List (List Char)} (idle : Idle inserted)
    (kept : List (List Char)) : inserted.foldlM stepSegment kept = .ok kept := by
  cases idle with
  | empty => rfl
  | dot => rfl
  | detour segment ordinary whole =>
    exact fold_cons_iff.mpr ⟨_, stepSegment_of_ordinary ordinary kept, rfl⟩

theorem Idle.undivided {inserted : List (List Char)} (idle : Idle inserted) :
    inserted ≠ [] ∧ ∀ segment ∈ inserted, '/' ∉ segment := by
  cases idle with
  | empty => exact ⟨List.cons_ne_nil _ _, by decide⟩
  | dot => exact ⟨List.cons_ne_nil _ _, by decide⟩
  | detour segment ordinary whole =>
    exact ⟨List.cons_ne_nil _ _, List.forall_mem_cons.mpr ⟨whole, by decide⟩⟩

/-- What changes nothing for any segments kept before it can be put in anywhere. -/
theorem Idle.fold_insert {before after inserted : List (List Char)} (idle : Idle inserted) :
    (before ++ inserted ++ after).foldlM stepSegment [] =
      (before ++ after).foldlM stepSegment [] := by
  rw [List.append_assoc]
  cases found : before.foldlM stepSegment [] with
  | error cause =>
    rw [List.foldlM_append, List.foldlM_append, found]
    rfl
  | ok kept => rw [fold_append found, fold_append (idle.fold kept), fold_append found]

theorem Idle.clean_insert {path : List Char} {before after inserted : List (List Char)}
    (idle : Idle inserted) (split : Text.segments '/' path = before ++ after) :
    cleanSegments (Text.joinSegments '/' (before ++ inserted ++ after)) = cleanSegments path := by
  obtain ⟨some, wholes⟩ := idle.undivided
  have wholesAround : ∀ segment ∈ before ++ after, '/' ∉ segment := fun segment member =>
    (Text.segment_parts (split ▸ member)).1
  rw [List.forall_mem_append] at wholesAround
  have again : Text.segments '/' (Text.joinSegments '/' (before ++ inserted ++ after)) =
      before ++ inserted ++ after := by
    apply Text.segments_joinSegments
    · simp [some]
    · rw [List.forall_mem_append, List.forall_mem_append]
      exact ⟨⟨wholesAround.1, wholes⟩, wholesAround.2⟩
  rw [cleanSegments, cleanSegments, again, split, idle.fold_insert]

/-- Cleaning is lexical resolution without escape: a path is refused exactly when some of
its first segments lead up more often than down, and otherwise it is cleaned to the
ordinary segments that no run right behind them takes away, of which the last loses a
suffix. -/
theorem cleaning_is_lexical (path : List Char) :
    (cleanSegments path = .error .escapesRoot ↔
      ∃ run, run <+: Text.segments '/' path ∧ Ascends run) ∧
    ((¬ ∃ run, run <+: Text.segments '/' path ∧ Ascends run) →
      ∃ cleaned, cleanSegments path = .ok cleaned ∧
        LosesSuffix (standing (Text.segments '/' path)) cleaned) ∧
    ∀ before after inserted, Text.segments '/' path = before ++ after → Idle inserted →
      cleanSegments (Text.joinSegments '/' (before ++ inserted ++ after)) =
        cleanSegments path := by
  refine ⟨?_, fun level => ?_, fun before after inserted split idle => idle.clean_insert split⟩
  · rw [cleanSegments_eq_error_iff, eq_self, true_and]
  · cases clean : cleanSegments path with
    | error cause => exact absurd (cleanSegments_eq_error_iff.mp clean).2 level
    | ok cleaned => exact ⟨cleaned, rfl, (cleanSegments_eq_ok_iff_standing.mp clean).2⟩

/-- A segment between two others that is taken back at once, and a path that leads up too
far before it leads down again. -/
theorem cleaning_is_lexical_around_detour :
    Text.segments '/' "a/b.git".toList = ["a".toList] ++ ["b.git".toList] ∧
      Idle ["x".toList, ['.', '.']] ∧
      cleanSegments "a/x/../b.git".toList = .ok ["a".toList, "b".toList] ∧
      cleanSegments "a/../../b".toList = .error .escapesRoot := by
  have split : Text.segments '/' "a/b.git".toList = ["a".toList] ++ ["b.git".toList] := rfl
  have idle : Idle ["x".toList, ['.', '.']] := .detour _ (by decide) (by decide)
  have inserted := (cleaning_is_lexical "a/b.git".toList).2.2 _ _ _ split idle
  have ascends : ∃ run, run <+: Text.segments '/' "a/../../b".toList ∧ Ascends run :=
    ⟨["a".toList, ['.', '.'], ['.', '.']], ⟨["b".toList], rfl⟩, by decide⟩
  exact ⟨split, idle, inserted, (cleaning_is_lexical _).1.mpr ascends⟩

end SymbolAtlas.Repo
