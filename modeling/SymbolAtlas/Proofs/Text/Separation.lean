/-! Two texts with a separator between them come apart again only as far as the
separator is missing from one of them. A separator alone must not stand in the front
part; one with a word behind it must not stand there with that word; and a mark that
ends a text, or is left out, must not end what stands before it. -/
namespace SymbolAtlas.Text
variable {sep : Char} {x y u v : List Char}

/-- Two ways to divide a text at a separator are one way, or the front part of either
reaches over a separator into the back part of the other. -/
theorem append_sep_eq_iff : x ++ sep :: u = y ++ sep :: v ↔
    (x = y ∧ u = v) ∨ (∃ middle, x = y ++ sep :: middle ∧ v = middle ++ sep :: u) ∨
      ∃ middle, y = x ++ sep :: middle ∧ u = middle ++ sep :: v := by
  constructor
  · intro same
    rcases List.append_eq_append_iff.mp same with ⟨extra, rfl, rest⟩ | ⟨extra, rfl, rest⟩
    · cases extra with
      | nil =>
        cases rest
        exact .inl ⟨(List.append_nil x).symm, rfl⟩
      | cons c middle =>
        cases rest
        exact .inr (.inr ⟨middle, rfl, rfl⟩)
    · cases extra with
      | nil =>
        cases rest
        exact .inl ⟨List.append_nil y, rfl⟩
      | cons c middle =>
        cases rest
        exact .inr (.inl ⟨middle, rfl, rfl⟩)
  · rintro (⟨rfl, rfl⟩ | ⟨middle, rfl, rfl⟩ | ⟨middle, rfl, rfl⟩) <;> simp

/-- A separator that stands in neither front part divides in one way only. -/
theorem append_sep_inj (first : sep ∉ x) (second : sep ∉ y)
    (same : x ++ sep :: u = y ++ sep :: v) : x = y ∧ u = v := by
  rcases append_sep_eq_iff.mp same with equal | ⟨middle, rfl, _⟩ | ⟨middle, rfl, _⟩
  · exact equal
  · exact absurd (List.mem_append_right y List.mem_cons_self) first
  · exact absurd (List.mem_append_right x List.mem_cons_self) second

/-- A text that begins with a word and goes on with a separator that the word does not
have goes on to it behind the word. -/
private theorem begins_with_word {word middle rest : List Char} (whole : sep ∉ word)
    (same : word ++ v = middle ++ sep :: rest) : word <+: middle := by
  rcases List.append_eq_append_iff.mp same with ⟨extra, rfl, _⟩ | ⟨extra, rfl, split⟩
  · exact List.prefix_append word extra
  · cases extra with
    | nil => exact ⟨[], by simp⟩
    | cons c extra =>
      cases split
      exact absurd (List.mem_append_right middle List.mem_cons_self) whole

/-- So do separators with words behind them, where neither word stands in the other front
part behind a separator. -/
theorem append_words_inj {a b : List Char} (first : sep ∉ a) (second : sep ∉ b)
    (apart : ¬ sep :: b <:+: x) (otherApart : ¬ sep :: a <:+: y)
    (same : x ++ sep :: (a ++ u) = y ++ sep :: (b ++ v)) : x = y ∧ a ++ u = b ++ v := by
  rcases append_sep_eq_iff.mp same with equal | ⟨middle, rfl, rest⟩ | ⟨middle, rfl, rest⟩
  · exact equal
  · obtain ⟨extra, rfl⟩ := begins_with_word second rest
    exact absurd ⟨y, extra, by simp⟩ apart
  · obtain ⟨extra, rfl⟩ := begins_with_word first rest
    exact absurd ⟨x, extra, by simp⟩ otherApart

/-- In particular, a separator with one word behind it. -/
theorem append_marker_inj {word : List Char} (whole : sep ∉ word)
    (first : ¬ sep :: word <:+: x) (second : ¬ sep :: word <:+: y)
    (same : x ++ sep :: (word ++ u) = y ++ sep :: (word ++ v)) : x = y ∧ u = v := by
  obtain ⟨fronts, rest⟩ := append_words_inj whole whole first second same
  exact ⟨fronts, List.append_cancel_left rest⟩

/-- Whether a mark ends a text is told by the text, where what stands before the mark
does not end with it. -/
theorem append_mark_inj {mark : List Char} {p q : Bool}
    (first : ¬ mark <:+ x) (second : ¬ mark <:+ y)
    (same : (x ++ if p then mark else []) = y ++ if q then mark else []) : x = y ∧ p = q := by
  cases p <;> cases q
  · exact ⟨by simpa using same, rfl⟩
  · exact absurd ⟨y, by simpa using same.symm⟩ first
  · exact absurd ⟨x, by simpa using same⟩ second
  · exact ⟨List.append_cancel_right same, rfl⟩

/-- What a text ends with ends the part behind a separator, unless the separator stands
in it. -/
theorem suffix_of_suffix_append_sep {mark : List Char} (whole : sep ∉ mark)
    (ends : mark <:+ x ++ sep :: y) : mark <:+ y := by
  obtain ⟨front, same⟩ := ends
  rcases List.append_eq_append_iff.mp same with ⟨extra, rfl, rest⟩ | ⟨extra, rfl, rest⟩
  · rw [rest] at whole
    exact absurd (List.mem_append_right extra List.mem_cons_self) whole
  · cases extra with
    | nil =>
      rw [List.nil_append] at rest
      rw [← rest] at whole
      exact absurd List.mem_cons_self whole
    | cons c extra =>
      cases rest
      exact List.suffix_append extra mark

end SymbolAtlas.Text
