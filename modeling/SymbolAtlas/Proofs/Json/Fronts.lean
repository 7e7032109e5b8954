import SymbolAtlas.Proofs.Json.Held
import SymbolAtlas.Proofs.Json.Parts

/-! Blanks, a word and a string are each taken off the front of a text, and what follows
has no say in it: the same front gives the same in front of anything. What is read as a
string is also skipped as one, and skipping takes neither more nor less of the text. -/
namespace SymbolAtlas.Json

/-! ### Blanks -/

/-- Nothing but blanks. -/
def Blank (gap : List Char) : Prop := ∀ c ∈ gap, isJsonBlank c = true

theorem skipBlanks_split (text : List Char) : ∃ gap, Blank gap ∧ text = gap ++ skipBlanks text := by
  refine ⟨text.takeWhile isJsonBlank, fun c member => ?_, List.takeWhile_append_dropWhile.symm⟩
  exact List.mem_takeWhile_imp member

theorem skipBlanks_append {gap : List Char} (blank : Blank gap) (text : List Char) :
    skipBlanks (gap ++ text) = skipBlanks text :=
  List.dropWhile_append_of_pos blank

theorem solid_of_skipBlanks {text rest : List Char} {c : Char}
    (found : skipBlanks text = c :: rest) : isJsonBlank c = false := by
  have stopped := List.head?_dropWhile_not isJsonBlank text
  rw [← skipBlanks, found] at stopped
  exact stopped

theorem numberEnds_append {gap text : List Char} (blank : Blank gap) (ends : NumberEnds text) :
    NumberEnds (gap ++ text) := by
  cases gap with
  | nil => exact ends
  | cons c gap =>
    have solid := blank c List.mem_cons_self
    refine numberEnds_cons ⟨?_, ?_, ?_, ?_⟩ _
    · simp only [isJsonBlank, Bool.or_eq_true, decide_eq_true_eq] at solid
      rcases solid with ((rfl | rfl) | rfl) | rfl <;> rfl
    all_goals rintro rfl; contradiction

/-! ### Words -/

theorem word_front {expected text rest : List Char} (read : word expected text = .ok rest) :
    text = expected ++ rest := by
  induction expected generalizing text with
  | nil => cases read; rfl
  | cons c more ih =>
    cases text with
    | nil => contradiction
    | cons d text =>
      rw [word] at read
      split at read
      · subst d
        rw [ih read, List.cons_append]
      · contradiction

/-! ### Strings -/

theorem fourHex_front {text rest : List Char} {n : Nat} (read : fourHex text = .ok (n, rest)) :
    ∃ digits, digits.length = 4 ∧ text = digits ++ rest ∧
      ∀ after, fourHex (digits ++ after) = .ok (n, after) := by
  unfold fourHex at read
  split at read
  · contradiction
  rename_i long
  split at read
  · rename_i a b c d rest'
    split at read
    · rename_i ha hb hc hd
      cases read
      refine ⟨[a, b, c, d], rfl, rfl, fun after => ?_⟩
      have enough : ¬ (Utf8.encode (List.take 4 (a :: b :: c :: d :: after))).length < 4 := long
      change fourHex (a :: b :: c :: d :: after) = _
      rw [fourHex, if_neg enough]
      simp only [ha, hb, hc, hd]
    · contradiction
  · contradiction

theorem skipEscape_unicode {digits : List Char} {n : Nat}
    (read : ∀ after, fourHex (digits ++ after) = .ok (n, after)) (after : List Char) :
    skipEscape ('u' :: digits ++ after) = .ok after := by
  have unfolded : skipEscape ('u' :: digits ++ after) = (fourHex (digits ++ after)).map (·.2) := rfl
  rw [unfolded, read]
  rfl

theorem skipEscape_letter {c : Char} (other : c ≠ 'u') (rest : List Char) :
    skipEscape (c :: rest) = if (simpleEscape? c).isSome then .ok rest else .error .malformed := by
  unfold skipEscape
  split
  · contradiction
  · rename_i same
    exact absurd (List.cons.inj same).1 other
  · rename_i same
    obtain ⟨rfl, rfl⟩ := List.cons.inj same
    rfl

theorem escape_letter {c : Char} (other : c ≠ 'u') (rest : List Char) :
    escape (c :: rest) = match simpleEscape? c with
      | some d => .ok (d, rest)
      | none => .error .malformed := by
  unfold escape
  split
  · contradiction
  · rename_i same
    exact absurd (List.cons.inj same).1 other
  · rename_i same
    obtain ⟨rfl, rfl⟩ := List.cons.inj same
    rfl

theorem skipEscape_front {text rest : List Char} (read : skipEscape text = .ok rest) :
    ∃ front, front ≠ [] ∧ text = front ++ rest ∧
      ∀ after, skipEscape (front ++ after) = .ok after := by
  cases text with
  | nil => contradiction
  | cons c text =>
    by_cases spelled : c = 'u'
    · subst c
      have unfolded : ∀ digits, skipEscape ('u' :: digits) = (fourHex digits).map (·.2) :=
        fun _ => rfl
      rw [unfolded] at read
      cases four : fourHex text with
      | error fault => rw [four] at read; contradiction
      | ok found =>
        obtain ⟨n, left⟩ := found
        rw [four] at read
        cases read
        obtain ⟨front, -, rfl, again⟩ := fourHex_front four
        exact ⟨'u' :: front, List.cons_ne_nil _ _, rfl, skipEscape_unicode again⟩
    · rw [skipEscape_letter spelled] at read
      split at read
      · rename_i known
        cases read
        refine ⟨[c], List.cons_ne_nil _ _, rfl, fun after => ?_⟩
        rw [List.singleton_append, skipEscape_letter spelled, if_pos known]
      · contradiction

/-- The outline of an escape is a step in the outline of a string. -/
theorem skipString_escape {front : List Char}
    (skips : ∀ after, skipEscape (front ++ after) = .ok after) (steps : Nat) (after : List Char) :
    skipString (steps + 1) ('\\' :: (front ++ after)) = skipString steps after := by
  rw [skipString, if_neg (by decide), if_pos rfl, skips]
  rfl

/-- Whatever follows, `c` is read from the escape `front`, and the outline of a string goes
on behind it after as many steps as the escape has backslashes. -/
def EscapeFront (front : List Char) (c : Char) : Prop :=
  (∀ after, escape (front ++ after) = .ok (c, after)) ∧
    ∃ taken, 0 < taken ∧ taken ≤ front.length ∧ ∀ steps after,
      skipString (steps + taken) ('\\' :: (front ++ after)) = skipString steps after

theorem escape_unicode_front {text rest : List Char} {c : Char}
    (read : escape ('u' :: text) = .ok (c, rest)) :
    ∃ front, 'u' :: text = front ++ rest ∧ EscapeFront front c := by
  simp only [escape] at read
  obtain ⟨⟨unit, left⟩, four, decoded⟩ := bind_eq_ok read
  obtain ⟨front, size, rfl, again⟩ := fourHex_front four
  have skips := skipEscape_unicode again
  dsimp only at decoded
  split at decoded
  · contradiction
  rename_i highest
  split at decoded
  · rename_i plain
    cases decoded
    refine ⟨'u' :: front, rfl, fun after => ?_, 1, Nat.one_pos, by simp, skipString_escape skips⟩
    simp only [List.cons_append, escape, again, bind, Except.bind, if_neg highest, if_pos plain]
  rename_i paired
  split at decoded
  · contradiction
  · contradiction
  · rename_i more
    obtain ⟨⟨second, left⟩, fourMore, joined⟩ := bind_eq_ok decoded
    obtain ⟨low, sizeMore, rfl, againMore⟩ := fourHex_front fourMore
    dsimp only at joined
    split at joined
    · rename_i lowest
      obtain ⟨rfl, rfl⟩ := Prod.mk.inj (Except.ok.inj joined)
      -- The outline takes the two halves of a pair for two escapes.
      refine ⟨'u' :: front ++ '\\' :: 'u' :: low, by simp, fun after => ?_, 2, by decide, ?_,
        fun steps after => ?_⟩
      · simp only [List.cons_append, List.append_assoc, escape, again, againMore, bind,
          Except.bind, if_neg highest, if_neg paired, if_pos lowest]
      · simp only [List.length_append, List.length_cons]
        omega
      · rw [List.append_assoc, skipString_escape skips (steps + 1)]
        exact skipString_escape (skipEscape_unicode againMore) steps after
    · contradiction
  · contradiction

/-- An escape that is read is skipped as well. -/
theorem escape_front {text rest : List Char} {c : Char} (read : escape text = .ok (c, rest)) :
    ∃ front, text = front ++ rest ∧ EscapeFront front c := by
  cases text with
  | nil => contradiction
  | cons d text =>
    by_cases spelled : d = 'u'
    · subst d
      exact escape_unicode_front read
    · rw [escape_letter spelled] at read
      split at read
      · rename_i known
        cases read
        refine ⟨[d], rfl, fun after => ?_, 1, Nat.one_pos, Nat.le_refl _, fun steps after => ?_⟩
        · rw [List.singleton_append, escape_letter spelled, known]
        · refine skipString_escape (fun after => ?_) steps after
          rw [List.singleton_append, skipEscape_letter spelled, known]
          rfl
      · contradiction

theorem stringBody_front {steps : Nat} {done text rest : List Char} {s : String}
    (read : stringBody steps done text = .ok (s, rest)) :
    ∃ body, text = body ++ rest ∧
      (∀ steps, body.length ≤ steps → ∀ after,
        stringBody steps done (body ++ after) = .ok (s, after)) ∧
      ∀ steps, body.length ≤ steps → ∀ after, skipString steps (body ++ after) = .ok after := by
  induction steps generalizing done text with
  | zero => contradiction
  | succ steps ih =>
    cases text with
    | nil => contradiction
    | cons c text =>
      rw [stringBody] at read
      split at read
      · subst c
        cases read
        refine ⟨['"'], rfl, fun steps enough after => ?_, fun steps enough after => ?_⟩
        · obtain ⟨steps, rfl⟩ := Nat.exists_eq_add_of_le' enough
          rfl
        · obtain ⟨steps, rfl⟩ := Nat.exists_eq_add_of_le' enough
          rfl
      rename_i unquoted
      split at read
      · subst c
        obtain ⟨⟨d, left⟩, escaped, more⟩ := bind_eq_ok read
        obtain ⟨front, rfl, again, taken, some, few, skips⟩ := escape_front escaped
        obtain ⟨body, rfl, reads, passes⟩ := ih more
        refine ⟨'\\' :: (front ++ body), by simp, fun steps enough after => ?_,
          fun steps enough after => ?_⟩
        · simp only [List.length_cons, List.length_append] at enough
          obtain ⟨steps, rfl⟩ := Nat.exists_eq_add_of_le' (show 1 ≤ steps by omega)
          rw [List.cons_append, List.append_assoc, stringBody, if_neg unquoted, if_pos rfl, again]
          exact reads steps (by omega) after
        · simp only [List.length_cons, List.length_append] at enough
          obtain ⟨steps, rfl⟩ := Nat.exists_eq_add_of_le' (show taken ≤ steps by omega)
          rw [List.cons_append, List.append_assoc, skips]
          exact passes steps (by omega) after
      rename_i unescaped
      split at read
      · contradiction
      rename_i printed
      obtain ⟨body, rfl, reads, passes⟩ := ih read
      refine ⟨c :: body, rfl, fun steps enough after => ?_, fun steps enough after => ?_⟩
      · obtain ⟨steps, rfl⟩ := Nat.exists_eq_add_of_le' (Nat.le_trans (Nat.le_add_left 1 _) enough)
        rw [List.cons_append, stringBody, if_neg unquoted, if_neg unescaped, if_neg printed]
        exact reads steps (Nat.le_of_succ_le_succ enough) after
      · obtain ⟨steps, rfl⟩ := Nat.exists_eq_add_of_le' (Nat.le_trans (Nat.le_add_left 1 _) enough)
        rw [List.cons_append, skipString, if_neg unquoted, if_neg unescaped, if_neg printed]
        exact passes steps (Nat.le_of_succ_le_succ enough) after

theorem skipString_front {steps : Nat} {text rest : List Char}
    (skipped : skipString steps text = .ok rest) :
    ∃ body, text = body ++ rest ∧
      ∀ steps, body.length ≤ steps → ∀ after, skipString steps (body ++ after) = .ok after := by
  induction steps generalizing text with
  | zero => contradiction
  | succ steps ih =>
    cases text with
    | nil => contradiction
    | cons c text =>
      rw [skipString] at skipped
      split at skipped
      · subst c
        cases skipped
        refine ⟨['"'], rfl, fun steps enough after => ?_⟩
        obtain ⟨steps, rfl⟩ := Nat.exists_eq_add_of_le' enough
        rfl
      rename_i unquoted
      split at skipped
      · subst c
        obtain ⟨left, escaped, more⟩ := bind_eq_ok skipped
        obtain ⟨front, -, rfl, again⟩ := skipEscape_front escaped
        obtain ⟨body, rfl, passes⟩ := ih more
        refine ⟨'\\' :: (front ++ body), by simp, fun steps enough after => ?_⟩
        simp only [List.length_cons, List.length_append] at enough
        obtain ⟨steps, rfl⟩ := Nat.exists_eq_add_of_le' (Nat.le_trans (Nat.le_add_left 1 _) enough)
        rw [List.cons_append, List.append_assoc, skipString_escape again]
        exact passes steps (by omega) after
      rename_i unescaped
      split at skipped
      · contradiction
      rename_i printed
      obtain ⟨body, rfl, passes⟩ := ih skipped
      refine ⟨c :: body, rfl, fun steps enough after => ?_⟩
      obtain ⟨steps, rfl⟩ := Nat.exists_eq_add_of_le' (Nat.le_trans (Nat.le_add_left 1 _) enough)
      rw [List.cons_append, skipString, if_neg unquoted, if_neg unescaped, if_neg printed]
      exact passes steps (Nat.le_of_succ_le_succ enough) after

end SymbolAtlas.Json
