import SymbolAtlas.Text.Segments

/-! Splitting a text and cutting it agree on where the separators are: no piece
holds one where it must not, and pieces without separators are found again when
they are put together. -/
namespace SymbolAtlas.Text
variable {sep : Char}

/-- The first character of a text is a separator, with an empty segment before it,
or the beginning of the first segment. -/
theorem segments_cons_cases (sep c : Char) (rest : List Char) :
    (c = sep ∧ segments sep (c :: rest) = [] :: segments sep rest) ∨
      (c ≠ sep ∧ ∃ first others, segments sep rest = first :: others ∧
        segments sep (c :: rest) = (c :: first) :: others) := by
  by_cases same : c = sep
  · exact .inl ⟨same, by simp [segments, same]⟩
  · right
    cases found : segments sep rest with
    | nil => exact absurd found (segments_ne_nil sep rest)
    | cons first others => exact ⟨same, first, others, rfl, by simp [segments, same, found]⟩

/-- A separator divides the segments before it from those after it. -/
theorem segments_append_sep (sep : Char) (before after : List Char) :
    segments sep (before ++ sep :: after) = segments sep before ++ segments sep after := by
  induction before with
  | nil => simp [segments]
  | cons c rest ih =>
    rcases segments_cons_cases sep c rest with ⟨same, split⟩ | ⟨other, first, others, found, split⟩
    · rw [split, List.cons_append, segments, if_pos same, ih]
      rfl
    · rw [split, List.cons_append, segments, if_neg other, ih, found]
      rfl

theorem segments_of_not_mem {text : List Char} (whole : sep ∉ text) :
    segments sep text = [text] := by
  induction text with
  | nil => rfl
  | cons c rest ih =>
    simp only [List.mem_cons, not_or] at whole
    rw [segments, if_neg (Ne.symm whole.1), ih whole.2]

/-- No segment holds a separator, and whatever it holds stands in the text. -/
theorem segment_parts {text segment : List Char} (member : segment ∈ segments sep text) :
    sep ∉ segment ∧ segment ⊆ text := by
  induction text generalizing segment with
  | nil => simp_all [segments]
  | cons c rest ih =>
    rcases segments_cons_cases sep c rest with ⟨_, split⟩ | ⟨other, first, others, found, split⟩
    · rw [split] at member
      cases member with
      | head => exact ⟨List.not_mem_nil, List.nil_subset _⟩
      | tail _ later =>
        obtain ⟨undivided, inside⟩ := ih later
        exact ⟨undivided, List.subset_cons_of_subset c inside⟩
    · rw [split] at member
      rw [found] at ih
      cases member with
      | head =>
        obtain ⟨undivided, inside⟩ := ih List.mem_cons_self
        rw [List.mem_cons, not_or]
        exact ⟨⟨Ne.symm other, undivided⟩, List.cons_subset_cons c inside⟩
      | tail _ later =>
        obtain ⟨undivided, inside⟩ := ih (List.mem_cons_of_mem first later)
        exact ⟨undivided, List.subset_cons_of_subset c inside⟩

/-- Segments without separators are found again where each of them but the first
follows a separator. -/
theorem segments_flatMap {first : List Char} {others : List (List Char)} (whole : sep ∉ first)
    (wholes : ∀ segment ∈ others, sep ∉ segment) :
    segments sep (first ++ others.flatMap (sep :: ·)) = first :: others := by
  induction others generalizing first with
  | nil => simpa using segments_of_not_mem whole
  | cons second rest ih =>
    rw [List.forall_mem_cons] at wholes
    rw [List.flatMap_cons, List.cons_append, segments_append_sep, segments_of_not_mem whole,
      ih wholes.1 wholes.2]
    rfl

/-- Parts without separators are segments of their own where each of them is
followed by one. -/
theorem segments_flatMap_append {parts : List (List Char)}
    (wholes : ∀ part ∈ parts, sep ∉ part) (text : List Char) :
    segments sep (parts.flatMap (· ++ [sep]) ++ text) = parts ++ segments sep text := by
  induction parts with
  | nil => rfl
  | cons part rest ih =>
    rw [List.forall_mem_cons] at wholes
    have split : (part :: rest).flatMap (· ++ [sep]) ++ text =
        part ++ sep :: (rest.flatMap (· ++ [sep]) ++ text) := by simp
    rw [split, segments_append_sep, segments_of_not_mem wholes.1, ih wholes.2]
    rfl

/-- Separators at the end add empty segments. -/
theorem segments_append_replicate {text : List Char} (whole : sep ∉ text) (count : Nat) :
    segments sep (text ++ List.replicate count sep) = text :: List.replicate count [] := by
  induction count generalizing text with
  | zero => simpa using segments_of_not_mem whole
  | succ count ih =>
    rw [List.replicate_succ, segments_append_sep, segments_of_not_mem whole,
      ← List.nil_append (List.replicate count sep), ih List.not_mem_nil]
    rfl

theorem cutFirst_eq_none_iff {text : List Char} : cutFirst sep text = none ↔ sep ∉ text := by
  induction text with
  | nil => simp [cutFirst]
  | cons c rest ih =>
    rw [cutFirst]
    by_cases same : c = sep
    · simp [same]
    · simp [same, ih, Ne.symm same]

theorem not_mem_before_cutFirst {text before after : List Char}
    (cut : cutFirst sep text = some (before, after)) : sep ∉ before := by
  induction text generalizing before with
  | nil => cases cut
  | cons c rest ih =>
    rw [cutFirst] at cut
    by_cases same : c = sep
    · rw [if_pos same] at cut
      cases cut
      exact List.not_mem_nil
    · rw [if_neg same] at cut
      obtain ⟨⟨shorter, _⟩, found, whole⟩ := Option.map_eq_some_iff.mp cut
      cases whole
      rw [List.mem_cons, not_or]
      exact ⟨Ne.symm same, ih found⟩

theorem cutLast_eq_none_iff {text : List Char} : cutLast sep text = none ↔ sep ∉ text := by
  induction text with
  | nil => simp [cutLast]
  | cons c rest ih =>
    rw [cutLast]
    cases found : cutLast sep rest with
    | some parts =>
      have held : sep ∈ rest := by
        by_cases held : sep ∈ rest
        · exact held
        · rw [ih.mpr held] at found
          cases found
      simp [held]
    | none =>
      have absent : sep ∉ rest := ih.mp found
      by_cases same : c = sep
      · simp [same]
      · simp [same, absent, Ne.symm same]

theorem not_mem_after_cutLast {text before after : List Char}
    (cut : cutLast sep text = some (before, after)) : sep ∉ after := by
  induction text generalizing before with
  | nil => cases cut
  | cons c rest ih =>
    rw [cutLast] at cut
    cases found : cutLast sep rest with
    | some parts =>
      rw [found] at cut
      cases cut
      exact ih found
    | none =>
      rw [found] at cut
      by_cases same : c = sep
      · simp only [same, if_true, Option.some.injEq, Prod.mk.injEq] at cut
        rw [← cut.2]
        exact cutLast_eq_none_iff.mp found
      · simp [same] at cut

theorem cutFirst_subset {text before after : List Char}
    (cut : cutFirst sep text = some (before, after)) : before ⊆ text ∧ after ⊆ text := by
  rw [eq_append_of_cutFirst cut]
  exact ⟨List.subset_append_left _ _,
    List.Subset.trans (List.subset_cons_self sep after) (List.subset_append_right _ _)⟩

theorem cutLast_subset {text before after : List Char}
    (cut : cutLast sep text = some (before, after)) : before ⊆ text ∧ after ⊆ text := by
  rw [eq_append_of_cutLast cut]
  exact ⟨List.subset_append_left _ _,
    List.Subset.trans (List.subset_cons_self sep after) (List.subset_append_right _ _)⟩

/-- A separator is the first one when none stands before it. -/
theorem cutFirst_append_sep {before : List Char} (whole : sep ∉ before) (after : List Char) :
    cutFirst sep (before ++ sep :: after) = some (before, after) := by
  induction before with
  | nil => simp [cutFirst]
  | cons c rest ih =>
    rw [List.mem_cons, not_or] at whole
    rw [List.cons_append, cutFirst, if_neg (Ne.symm whole.1), ih whole.2]
    rfl

/-- A separator is the last one when none stands after it. -/
theorem cutLast_append_sep (before : List Char) {after : List Char} (whole : sep ∉ after) :
    cutLast sep (before ++ sep :: after) = some (before, after) := by
  induction before with
  | nil => rw [List.nil_append, cutLast, cutLast_eq_none_iff.mpr whole, if_pos rfl]
  | cons c rest ih => rw [List.cons_append, cutLast, ih]

/-- Segments each after a separator are the segments joined, after a separator. -/
theorem flatMap_sep_eq_joinSegments (sep : Char) {segments : List (List Char)}
    (some : segments ≠ []) :
    segments.flatMap (sep :: ·) = sep :: joinSegments sep segments := by
  induction segments with
  | nil => exact absurd rfl some
  | cons first rest ih =>
    cases rest with
    | nil => simp [joinSegments]
    | cons second others =>
      rw [List.flatMap_cons, ih (List.cons_ne_nil second others)]
      rfl

/-- Splitting undoes joining, where no segment holds a separator. -/
theorem segments_joinSegments {pieces : List (List Char)} (some : pieces ≠ [])
    (wholes : ∀ piece ∈ pieces, sep ∉ piece) : segments sep (joinSegments sep pieces) = pieces := by
  cases pieces with
  | nil => exact absurd rfl some
  | cons first others =>
    rw [List.forall_mem_cons] at wholes
    have joined := flatMap_sep_eq_joinSegments sep some
    rw [List.flatMap_cons, List.cons_append, List.cons.injEq] at joined
    rw [← joined.2]
    exact segments_flatMap wholes.1 wholes.2

end SymbolAtlas.Text
