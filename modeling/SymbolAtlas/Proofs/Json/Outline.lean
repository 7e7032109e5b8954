import SymbolAtlas.Proofs.Json.NumberFronts
import SymbolAtlas.Proofs.Json.Rounds

/-! The outline of a value: a front that is skipped as one value, whatever follows, with
any budget that its length allows. Everything that is skipped is the outline of a value,
however deep its brackets are nested, since there are no more of them than characters. -/
namespace SymbolAtlas.Json

/-- A front that is skipped as one value, whatever follows. -/
def Outline (front : List Char) : Prop :=
  ∀ b : Budget, front.length ≤ b.steps → front.length ≤ b.nesting →
    ∀ rest, NumberEnds rest → skip b.steps b.nesting (front ++ rest) = .ok ((), rest)

theorem Outline.ne_nil {front : List Char} (outline : Outline front) : front ≠ [] := by
  rintro rfl
  exact nomatch outline ⟨0, 0⟩ (Nat.zero_le _) (Nat.zero_le _) [] numberEnds_nil

/-! ### Blanks in front -/

theorem skipBlanks_skipBlanks (text : List Char) :
    skipBlanks (skipBlanks text) = skipBlanks text := by
  cases found : skipBlanks text with
  | nil => rfl
  | cons c rest => exact skipBlanks_cons (solid_of_skipBlanks found) rest

theorem skip_skipBlanks (steps nesting : Nat) (text : List Char) :
    skip steps nesting text = skip steps nesting (skipBlanks text) := by
  cases nesting with
  | zero => rfl
  | succ nesting => rw [skip, skip, skipWith, skipWith, skipBlanks_skipBlanks]

theorem Outline.blank_append {gap front : List Char} (blank : Blank gap) (outline : Outline front) :
    Outline (gap ++ front) := by
  intro b wide deep rest ends
  rw [List.length_append] at wide deep
  rw [List.append_assoc, skip_skipBlanks, skipBlanks_append blank, ← skip_skipBlanks]
  exact outline b (by omega) (by omega) rest ends

/-! ### The kinds of values -/

/-- What is enough for one character more leaves a bracket to open. -/
theorem outline_of_skipWith {c : Char} {front : List Char}
    (skips : ∀ b : Budget, front.length ≤ b.steps → front.length ≤ b.nesting → ∀ rest,
      NumberEnds rest → skipWith b.steps (skip b.steps b.nesting) (c :: (front ++ rest)) =
        .ok ((), rest)) : Outline (c :: front) := by
  intro ⟨steps, nesting⟩ wide deep rest ends
  rw [List.length_cons] at wide deep
  obtain ⟨nesting, rfl⟩ := Nat.exists_eq_add_of_le' (Nat.le_trans (Nat.le_add_left 1 _) deep)
  exact skips ⟨steps, nesting⟩ (Nat.le_of_succ_le wide) (Nat.le_of_succ_le_succ deep) rest ends

theorem outline_null : Outline ['n', 'u', 'l', 'l'] := outline_of_skipWith fun _ _ _ _ _ => rfl

theorem outline_true : Outline ['t', 'r', 'u', 'e'] := outline_of_skipWith fun _ _ _ _ _ => rfl

theorem outline_false : Outline ['f', 'a', 'l', 's', 'e'] :=
  outline_of_skipWith fun _ _ _ _ _ => rfl

/-- A string is skipped from its opening quote. -/
theorem outline_string {body : List Char}
    (skips : ∀ steps, body.length ≤ steps → ∀ after, skipString steps (body ++ after) = .ok after) :
    Outline ('"' :: body) := by
  refine outline_of_skipWith fun b wide _ rest _ => ?_
  have unfolded : skipWith b.steps (skip b.steps b.nesting) ('"' :: (body ++ rest)) =
      (skipString b.steps (body ++ rest)).map ((), ·) := rfl
  rw [unfolded, skips b.steps wide]
  rfl

theorem skipWith_number {c : Char} (front : c = '-' ∨ c.isDigit = true) (steps : Nat)
    (inner : Reader Unit) (rest : List Char) :
    skipWith steps inner (c :: rest) = (skipNumber (c :: rest)).map ((), ·) := by
  rw [skipWith, skipBlanks_cons (not_isJsonBlank_of_number_front front)]
  split
  · contradiction
  · exact absurd (List.cons.inj ‹_›).1 (ne_of_number_front front (by decide))
  · exact absurd (List.cons.inj ‹_›).1 (ne_of_number_front front (by decide))
  · exact absurd (List.cons.inj ‹_›).1 (ne_of_number_front front (by decide))
  · exact absurd (List.cons.inj ‹_›).1 (ne_of_number_front front (by decide))
  · exact absurd (List.cons.inj ‹_›).1 (ne_of_number_front front (by decide))
  · exact absurd (List.cons.inj ‹_›).1 (ne_of_number_front front (by decide))
  · rename_i same
    obtain ⟨rfl, rfl⟩ := List.cons.inj same
    rw [if_pos front]

theorem outline_number {c : Char} {front : List Char} (number : c = '-' ∨ c.isDigit = true)
    (skips : ∀ after, NumberEnds after → skipNumber (c :: (front ++ after)) = .ok after) :
    Outline (c :: front) := by
  refine outline_of_skipWith fun b _ _ rest ends => ?_
  rw [skipWith_number number, skips rest ends]
  rfl

/-! ### Brackets -/

/-- Skipping keeps no state, so any two states are as good as each other. -/
def NoState {σ : Type} (_ : σ) (_ : Unit) : Prop := True

/-- The loop over a skipped array, or over a skipped object. -/
def skippedItems (b : Budget) : Nat → Unit → Reader Unit := fun _ _ => skip b.steps b.nesting

def skippedMembers (b : Budget) : Nat → Unit → Reader Unit := fun steps _ =>
  quoted (skippedMember (skip b.steps b.nesting) steps)

section Brackets
variable {σ : Type} {before after : σ} {front : List Char}

theorem outline_array
    (follows : Follows NoState (fun b steps => rounds ']' (skippedItems b) steps true) front
      before after) : Outline ('[' :: front) := by
  refine outline_of_skipWith fun b wide deep rest ends => ?_
  have unfolded : skipWith b.steps (skip b.steps b.nesting) ('[' :: (front ++ rest)) =
      items (fun _ => skip b.steps b.nesting) b.steps true () (front ++ rest) := rfl
  obtain ⟨_, _, takes⟩ := follows b b.steps wide deep wide () trivial
  rw [unfolded, items_eq_rounds]
  exact takes rest ends

theorem outline_object
    (follows : Follows NoState (fun b steps => rounds '\x7d' (skippedMembers b) steps true) front
      before after) : Outline ('\x7b' :: front) := by
  refine outline_of_skipWith fun b wide deep rest ends => ?_
  have unfolded : skipWith b.steps (skip b.steps b.nesting) ('\x7b' :: (front ++ rest)) =
      skipWith.skipMembers (skip b.steps b.nesting) b.steps true (front ++ rest) := rfl
  obtain ⟨_, _, takes⟩ := follows b b.steps wide deep wide () trivial
  rw [unfolded, skipMembers_eq_rounds]
  exact takes rest ends

/-- The outline of a value is one part of a skipped array. -/
theorem Outline.follows (outline : Outline front) :
    Follows NoState skippedItems front before after :=
  fun b _ wide deep _ _ _ => ⟨(), trivial, outline b wide deep⟩

theorem colon_front {text rest : List Char} (read : colon text = .ok rest) :
    ∃ gap, Blank gap ∧ text = gap ++ ':' :: rest := by
  obtain ⟨gap, blank, split⟩ := skipBlanks_split text
  unfold colon at read
  split at read
  · contradiction
  · rename_i found
    cases read
    rw [found] at split
    exact ⟨gap, blank, split⟩
  · contradiction

theorem colon_append {gap : List Char} (blank : Blank gap) (rest : List Char) :
    colon (gap ++ ':' :: rest) = .ok rest := by
  rw [colon, skipBlanks_append blank, skipBlanks_cons rfl]
  rfl

/-- A name in quotes, a colon and the outline of a value are one part of a skipped
object. -/
theorem Outline.followsNamed {spelled gap : List Char} (outline : Outline front)
    (blank : Blank gap) (skips : ∀ steps, spelled.length ≤ steps → ∀ after,
      skipString steps (spelled ++ after) = .ok after) :
    Follows NoState skippedMembers ('"' :: (spelled ++ (gap ++ ':' :: front))) before after := by
  intro b steps wide deep enough _ _
  simp only [List.length_cons, List.length_append] at wide deep enough
  refine ⟨(), trivial, fun rest ends => ?_⟩
  have unfolded : ∀ text, skippedMembers b steps () ('"' :: text) =
      (skipString steps text).bind fun rest => (colon rest).bind fun rest =>
        skip b.steps b.nesting rest := fun _ => rfl
  simp only [List.cons_append, List.append_assoc, unfolded, skips steps (by omega),
    colon_append blank, Except.bind]
  exact outline b (by omega) (by omega) rest ends

end Brackets

/-! ### Everything that is skipped -/

theorem skippedMember_front {inner : Reader Unit} {steps : Nat} {text rest : List Char}
    (skipped : quoted (skippedMember inner steps) text = .ok ((), rest)) :
    ∃ spelled gap value, text = '"' :: (spelled ++ (gap ++ ':' :: value)) ∧ Blank gap ∧
      inner value = .ok ((), rest) ∧ ∀ steps, spelled.length ≤ steps → ∀ after,
        skipString steps (spelled ++ after) = .ok after := by
  unfold quoted at skipped
  split at skipped
  · obtain ⟨left, name, later⟩ := bind_eq_ok skipped
    obtain ⟨value, separated, one⟩ := bind_eq_ok later
    obtain ⟨spelled, rfl, skips⟩ := skipString_front name
    obtain ⟨gap, blank, rfl⟩ := colon_front separated
    exact ⟨spelled, gap, value, rfl, blank, one, skips⟩
  · contradiction

theorem eq_ok_of_map {x : Except Fault (List Char)} {rest : List Char}
    (done : x.map ((), ·) = .ok ((), rest)) : x = .ok rest := by
  cases x with
  | error => contradiction
  | ok left => cases done; rfl

/-- All that is skipped in this way is the outline of a value. -/
def Outlines (inner : Reader Unit) : Prop :=
  ∀ ⦃text rest : List Char⦄, inner text = .ok ((), rest) →
    ∃ front, text = front ++ rest ∧ Outline front

section Inner
variable {inner : Reader Unit} (outlines : Outlines inner) {steps : Nat} {text rest : List Char}
include outlines

theorem Outlines.items (skipped : items (fun _ => inner) steps true () text = .ok ((), rest)) :
    ∃ front, text = front ++ rest ∧ Outline ('[' :: front) := by
  have item {before after : Unit} {text rest : List Char} (one : inner text = .ok (after, rest)) :
      ∃ front, front ≠ [] ∧ text = front ++ rest ∧
        Follows NoState skippedItems front before after := by
    obtain ⟨front, same, outline⟩ := outlines one
    exact ⟨front, outline.ne_nil, same, outline.follows⟩
  rw [items_eq_rounds] at skipped
  obtain ⟨front, _, same, follows, _⟩ := rounds_follow (.inl rfl) item skipped
  exact ⟨front, same, outline_array follows⟩

theorem Outlines.members (skipped : skipWith.skipMembers inner steps true text = .ok ((), rest)) :
    ∃ front, text = front ++ rest ∧ Outline ('\x7b' :: front) := by
  have member {left : Nat} {before after : Unit} {text rest : List Char}
      (one : quoted (skippedMember inner left) text = .ok (after, rest)) :
      ∃ front, front ≠ [] ∧ text = front ++ rest ∧
        Follows NoState skippedMembers front before after := by
    obtain ⟨spelled, gap, value, rfl, blank, one, skips⟩ := skippedMember_front one
    obtain ⟨front, rfl, outline⟩ := outlines one
    exact ⟨_, List.cons_ne_nil _ _, by simp, outline.followsNamed blank skips⟩
  rw [skipMembers_eq_rounds] at skipped
  obtain ⟨front, _, same, follows, _⟩ := rounds_follow (.inr rfl) member skipped
  exact ⟨front, same, outline_object follows⟩

end Inner

theorem skip_front {steps nesting : Nat} {text rest : List Char}
    (skipped : skip steps nesting text = .ok ((), rest)) :
    ∃ front, text = front ++ rest ∧ Outline front := by
  induction nesting generalizing text rest with
  | zero => contradiction
  | succ nesting ih =>
    have inner : Outlines (skip steps nesting) := fun _ _ => ih
    obtain ⟨gap, blank, split⟩ := skipBlanks_split text
    -- Blanks aside, it is one of the kinds.
    suffices solid : ∃ front, skipBlanks text = front ++ rest ∧ Outline front by
      obtain ⟨front, same, outline⟩ := solid
      exact ⟨gap ++ front, by rw [split, same, List.append_assoc], outline.blank_append blank⟩
    rw [skip, skipWith] at skipped
    split at skipped
    · contradiction
    · rename_i found
      rw [found, word_front (eq_ok_of_map skipped)]
      exact ⟨_, rfl, outline_null⟩
    · rename_i found
      rw [found, word_front (eq_ok_of_map skipped)]
      exact ⟨_, rfl, outline_true⟩
    · rename_i found
      rw [found, word_front (eq_ok_of_map skipped)]
      exact ⟨_, rfl, outline_false⟩
    · rename_i found
      obtain ⟨body, rfl, skips⟩ := skipString_front (eq_ok_of_map skipped)
      exact ⟨'"' :: body, found, outline_string skips⟩
    · rename_i found
      obtain ⟨front, rfl, outline⟩ := inner.items skipped
      exact ⟨'[' :: front, found, outline⟩
    · rename_i found
      obtain ⟨front, rfl, outline⟩ := inner.members skipped
      exact ⟨'\x7b' :: front, found, outline⟩
    · rename_i found
      split at skipped
      · rename_i number
        obtain ⟨front, some, split, skips⟩ := skipNumber_front (eq_ok_of_map skipped)
        rw [found, split]
        cases front with
        | nil => contradiction
        | cons d front =>
          obtain ⟨rfl, rfl⟩ := List.cons.inj split
          exact ⟨_, rfl, outline_number number skips⟩
      · contradiction

end SymbolAtlas.Json
