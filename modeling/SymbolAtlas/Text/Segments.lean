/-! A text with a separator is read in three ways here: as the list of all its
segments, as what lies around the first separator, and as what lies around the
last one. Each is a recursion on the text, and each loses nothing: putting the
separator back gives the text again. -/
namespace SymbolAtlas.Text

/-- The segments between separators; a text without a separator is one segment,
so the list is never empty. -/
def segments (sep : Char) : List Char → List (List Char)
  | [] => [[]]
  | c :: rest =>
    if c = sep then [] :: segments sep rest
    else match segments sep rest with
      | [] => [[c]]
      | first :: others => (c :: first) :: others

/-- The segments written one after another with the separator between them. -/
def joinSegments (sep : Char) : List (List Char) → List Char
  | [] => []
  | [only] => only
  | first :: second :: others => first ++ sep :: joinSegments sep (second :: others)

/-- What lies before and after the first separator, if there is one. -/
def cutFirst (sep : Char) : List Char → Option (List Char × List Char)
  | [] => none
  | c :: rest =>
    if c = sep then some ([], rest)
    else (cutFirst sep rest).map fun (before, after) => (c :: before, after)

/-- What lies before and after the last separator, if there is one. -/
def cutLast (sep : Char) : List Char → Option (List Char × List Char)
  | [] => none
  | c :: rest =>
    match cutLast sep rest with
    | some (before, after) => some (c :: before, after)
    | none => if c = sep then some ([], rest) else none

theorem segments_ne_nil (sep : Char) (text : List Char) : segments sep text ≠ [] := by
  cases text with
  | nil => simp [segments]
  | cons c rest =>
    simp only [segments]
    split
    · simp
    · split <;> simp

/-- Joining undoes splitting, whatever the text. -/
theorem joinSegments_segments (sep : Char) (text : List Char) :
    joinSegments sep (segments sep text) = text := by
  induction text with
  | nil => rfl
  | cons c rest ih =>
    simp only [segments]
    cases split : segments sep rest with
    | nil => exact absurd split (segments_ne_nil sep rest)
    | cons first others =>
      rw [split] at ih
      by_cases same : c = sep
      · subst same
        simp [joinSegments, ih]
      · cases others with
        | nil => simp_all [joinSegments]
        | cons second more => simp_all [joinSegments]

theorem eq_append_of_cutFirst {sep : Char} {text before after : List Char}
    (cut : cutFirst sep text = some (before, after)) : text = before ++ sep :: after := by
  induction text generalizing before with
  | nil => simp [cutFirst] at cut
  | cons c rest ih =>
    simp only [cutFirst] at cut
    split at cut
    · simp_all
    · obtain ⟨⟨b, a⟩, found, same⟩ := Option.map_eq_some_iff.1 cut
      simp only [Prod.mk.injEq] at same
      obtain ⟨rfl, rfl⟩ := same
      simp [ih found]

theorem eq_append_of_cutLast {sep : Char} {text before after : List Char}
    (cut : cutLast sep text = some (before, after)) : text = before ++ sep :: after := by
  induction text generalizing before with
  | nil => simp [cutLast] at cut
  | cons c rest ih =>
    simp only [cutLast] at cut
    split at cut
    · rename_i found
      simp only [Option.some.injEq, Prod.mk.injEq] at cut
      obtain ⟨rfl, rfl⟩ := cut
      simp [ih found]
    · split at cut
      · simp_all
      · simp at cut

end SymbolAtlas.Text
