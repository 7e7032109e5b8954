import SymbolAtlas.Json.Record
import SymbolAtlas.Proofs.Json.Outline

/-! Everything that can be read is read from the outline of a value, and from every text
that begins with the same outline it is read again. So what a reader makes of a value is
settled by the value alone, and two readers that come to the same place take the same
characters from there. -/
namespace SymbolAtlas.Json

/-- Whatever follows the front, `a` is read from it and the rest is left. -/
def Takes {α : Type} (read : Budget → Reader α) (nesting : Nat) (front : List Char) (a : α) :
    Prop :=
  ∀ steps, front.length ≤ steps → ∀ rest, NumberEnds rest →
    read ⟨steps, nesting⟩ (front ++ rest) = .ok (a, rest)

/-- All that is read inside so many brackets is read from the outline of a value. -/
def SettledAt {α : Type} (read : Budget → Reader α) (nesting : Nat) : Prop :=
  ∀ ⦃steps : Nat⦄ ⦃text rest : List Char⦄ ⦃a : α⦄, read ⟨steps, nesting⟩ text = .ok (a, rest) →
    ∃ front, text = front ++ rest ∧ Takes read nesting front a ∧ Outline front

/-- So it is inside any number of brackets. -/
def Settled {α : Type} (read : Budget → Reader α) : Prop := ∀ nesting, SettledAt read nesting

section Blanks
variable {α : Type} {read : Budget → Reader α} {nesting : Nat}

/-- A reader that drops blanks first needs a look only at texts without. -/
theorem settledAt_of_solid
    (drops : ∀ steps text, read ⟨steps, nesting⟩ text = read ⟨steps, nesting⟩ (skipBlanks text))
    (solid : ∀ {steps text rest a}, skipBlanks text = text →
      read ⟨steps, nesting⟩ text = .ok (a, rest) →
      ∃ front, text = front ++ rest ∧ Takes read nesting front a ∧ Outline front) :
    SettledAt read nesting := by
  intro steps text rest a done
  obtain ⟨gap, blank, split⟩ := skipBlanks_split text
  rw [drops] at done
  obtain ⟨front, same, takes, outline⟩ := solid (skipBlanks_skipBlanks text) done
  refine ⟨gap ++ front, by rw [split, same, List.append_assoc], ?_, outline.blank_append blank⟩
  intro steps enough rest ends
  rw [List.length_append] at enough
  rw [List.append_assoc, drops, skipBlanks_append blank, ← drops]
  exact takes steps (by omega) rest ends

end Blanks

/-! ### Loops -/

/-- A loop is settled, and takes what is skipped, if its parts are and do. -/
theorem rounds_settle {σ : Type} {close : Char} {part : Nat → σ → Reader σ}
    {own : Budget → Nat → σ → Reader σ} {skipped : Budget → Nat → Unit → Reader Unit}
    (closing : IsClosing close)
    (each : ∀ {steps before text after rest}, part steps before text = .ok (after, rest) →
      ∃ front, front ≠ [] ∧ text = front ++ rest ∧ Follows Eq own front before after ∧
        Follows NoState skipped front before after)
    {steps : Nat} {first : Bool} {before after : σ} {text rest : List Char}
    (read : rounds close part steps first before text = .ok (after, rest)) :
    ∃ front, text = front ++ rest ∧
      Follows Eq (fun b steps => rounds close (own b) steps first) front before after ∧
      Follows NoState (fun b steps => rounds close (skipped b) steps first) front before after := by
  obtain ⟨front, _, split, takes, _⟩ := rounds_follow closing (fun one => by
    obtain ⟨front, some, split, takes, _⟩ := each one
    exact ⟨front, some, split, takes⟩) read
  obtain ⟨other, _, splitToo, skips, _⟩ := rounds_follow closing (fun one => by
    obtain ⟨front, some, split, _, skips⟩ := each one
    exact ⟨front, some, split, skips⟩) read
  obtain rfl := List.append_cancel_right (split.symm.trans splitToo)
  exact ⟨front, split, takes, skips⟩

/-- An array of parts that are settled is settled. -/
theorem gather_settle {α : Type} {read : Budget → Reader α} {nesting : Nat}
    (settled : SettledAt read nesting) {steps : Nat} {done final : List α} {text rest : List Char}
    (parts : items (gather (read ⟨steps, nesting⟩)) steps true done text = .ok (final, rest)) :
    ∃ front, text = front ++ rest ∧ Outline ('[' :: front) ∧
      ∀ steps, front.length ≤ steps → ∀ after, NumberEnds after →
        items (gather (read ⟨steps, nesting⟩)) steps true done (front ++ after) =
          .ok (final, after) := by
  have item {before after : List α} {text rest : List Char}
      (one : gather (read ⟨steps, nesting⟩) before text = .ok (after, rest)) :
      ∃ front, front ≠ [] ∧ text = front ++ rest ∧
        Follows Eq (fun b _ => gather (read ⟨b.steps, nesting⟩)) front before after ∧
        Follows NoState skippedItems front before after := by
    obtain ⟨⟨a, left⟩, one, stored⟩ := bind_eq_ok one
    cases stored
    obtain ⟨front, same, takes, outline⟩ := settled one
    refine ⟨front, outline.ne_nil, same, ?_, outline.follows⟩
    intro b _ wide _ _ _ start
    subst start
    refine ⟨_, rfl, fun rest ends => ?_⟩
    simp only [gather, takes b.steps wide rest ends, bind, Except.bind]
  rw [items_eq_rounds] at parts
  obtain ⟨front, same, takes, skips⟩ := rounds_settle (.inl rfl) item parts
  refine ⟨front, same, outline_array skips, fun steps enough after ends => ?_⟩
  obtain ⟨_, rfl, reads⟩ := takes ⟨steps, front.length⟩ steps enough (Nat.le_refl _) enough _ rfl
  rw [items_eq_rounds]
  exact reads after ends

/-- What is made of a member after its name is settled by its value. -/
def MemberSettledAt {σ : Type} (member : Budget → σ → String → Reader σ) (nesting : Nat) : Prop :=
  ∀ ⦃steps : Nat⦄ ⦃before after : σ⦄ ⦃name : String⦄ ⦃text rest : List Char⦄,
    member ⟨steps, nesting⟩ before name text = .ok (after, rest) →
    ∃ gap value, Blank gap ∧ text = gap ++ ':' :: (value ++ rest) ∧ Outline value ∧
      ∀ steps, value.length ≤ steps → ∀ rest, NumberEnds rest →
        member ⟨steps, nesting⟩ before name (gap ++ ':' :: (value ++ rest)) = .ok (after, rest)

/-- An object of members that are settled is settled. -/
theorem members_settle {σ : Type} {member : Budget → σ → String → Reader σ} {nesting : Nat}
    (settled : MemberSettledAt member nesting) {steps : Nat} {before after : σ}
    {text rest : List Char}
    (parts : members (member ⟨steps, nesting⟩) steps true before text = .ok (after, rest)) :
    ∃ front, text = front ++ rest ∧ Outline ('\x7b' :: front) ∧
      ∀ steps, front.length ≤ steps → ∀ rest, NumberEnds rest →
        members (member ⟨steps, nesting⟩) steps true before (front ++ rest) =
          .ok (after, rest) := by
  have named {left : Nat} {before after : σ} {text rest : List Char}
      (one : quoted (namedMember (member ⟨steps, nesting⟩) left before) text = .ok (after, rest)) :
      ∃ front, front ≠ [] ∧ text = front ++ rest ∧
        Follows Eq (fun b steps state =>
          quoted (namedMember (member ⟨b.steps, nesting⟩) steps state)) front before after ∧
        Follows NoState skippedMembers front before after := by
    unfold quoted at one
    split at one
    · obtain ⟨⟨name, later⟩, spelled, made⟩ := bind_eq_ok one
      obtain ⟨chars, rfl, reads, skips⟩ := stringBody_front spelled
      obtain ⟨gap, value, blank, rfl, outline, again⟩ := settled made
      refine ⟨'"' :: (chars ++ (gap ++ ':' :: value)), List.cons_ne_nil _ _, by simp, ?_,
        outline.followsNamed blank skips⟩
      intro b left wide _ enough start
      rintro rfl
      simp only [List.length_cons, List.length_append] at wide enough
      refine ⟨_, rfl, fun rest ends => ?_⟩
      simp only [List.cons_append, List.append_assoc, quoted, namedMember,
        reads left (by omega), bind, Except.bind]
      exact again b.steps (by omega) rest ends
    · contradiction
  rw [members_eq_rounds] at parts
  obtain ⟨front, same, takes, skips⟩ := rounds_settle (.inr rfl) named parts
  refine ⟨front, same, outline_object skips, fun steps enough rest ends => ?_⟩
  obtain ⟨_, rfl, reads⟩ := takes ⟨steps, front.length⟩ steps enough (Nat.le_refl _) enough _ rfl
  rw [members_eq_rounds]
  exact reads rest ends

/-! ### Values -/

/-- Reads a value inside one bracket more, if one may be opened. -/
def inside (steps : Nat) : Nat → Option (Reader Value)
  | 0 => none
  | nesting + 1 => some (value steps nesting)

theorem value_eq_valueWith (steps nesting : Nat) (text : List Char) :
    value steps nesting text = valueWith steps (inside steps nesting) text := by
  cases nesting <;> rfl

theorem keep_settledAt {nesting : Nat} (settled : SettledAt anyValue nesting) :
    MemberSettledAt (fun b => keep (anyValue b)) nesting := by
  intro steps before after name text rest read
  obtain ⟨left, separated, one⟩ := bind_eq_ok read
  obtain ⟨⟨v, left⟩, one, stored⟩ := bind_eq_ok one
  cases stored
  obtain ⟨gap, blank, rfl⟩ := colon_front separated
  obtain ⟨front, rfl, takes, outline⟩ := settled one
  refine ⟨gap, front, blank, rfl, outline, fun steps enough rest ends => ?_⟩
  simp only [keep, colon_append blank, takes steps enough rest ends, bind, Except.bind]

section Kinds
variable {nesting : Nat} {front : List Char}

theorem takes_word {c : Char} {expected : List Char} {v : Value}
    (reads : ∀ steps inner rest, valueWith steps inner (c :: (expected ++ rest)) = .ok (v, rest))
    (nesting : Nat) : Takes anyValue nesting (c :: expected) v := by
  intro steps _ rest _
  exact (value_eq_valueWith steps nesting _).trans (reads steps _ rest)

theorem takes_string {s : String} (reads : ∀ steps, front.length ≤ steps → ∀ rest,
    stringBody steps [] (front ++ rest) = .ok (s, rest)) :
    Takes anyValue nesting ('"' :: front) (.string s) := by
  intro steps enough rest _
  have unfolded : ∀ text, anyValue ⟨steps, nesting⟩ ('"' :: text) =
      (stringBody steps [] text).bind fun s => .ok (.string s.1, s.2) :=
    fun _ => value_eq_valueWith steps nesting _
  rw [List.cons_append, unfolded, reads steps (Nat.le_of_succ_le enough)]
  rfl

theorem takes_array {done : List Value} (reads : ∀ steps, front.length ≤ steps → ∀ rest,
    NumberEnds rest → items (gather (anyValue ⟨steps, nesting⟩)) steps true [] (front ++ rest) =
      .ok (done, rest)) :
    Takes anyValue (nesting + 1) ('[' :: front) (.array done.reverse) := by
  intro steps enough rest ends
  have unfolded : ∀ text, anyValue ⟨steps, nesting + 1⟩ ('[' :: text) =
      (items (gather (anyValue ⟨steps, nesting⟩)) steps true [] text).bind
        fun done => .ok (.array done.1.reverse, done.2) := fun _ => rfl
  rw [List.cons_append, unfolded, reads steps (Nat.le_of_succ_le enough) rest ends]
  rfl

theorem takes_object {done : List (String × Value)} (reads : ∀ steps, front.length ≤ steps →
    ∀ rest, NumberEnds rest → members (keep (anyValue ⟨steps, nesting⟩)) steps true []
      (front ++ rest) = .ok (done, rest)) :
    Takes anyValue (nesting + 1) ('\x7b' :: front) (.object done) := by
  intro steps enough rest ends
  have unfolded : ∀ text, anyValue ⟨steps, nesting + 1⟩ ('\x7b' :: text) =
      (members (keep (anyValue ⟨steps, nesting⟩)) steps true [] text).bind
        fun done => .ok (.object done.1, done.2) := fun _ => rfl
  rw [List.cons_append, unfolded, reads steps (Nat.le_of_succ_le enough) rest ends]
  rfl

theorem takes_number {c : Char} {n : Number} (begins : c = '-' ∨ c.isDigit = true)
    (reads : ∀ rest, NumberEnds rest → number (c :: (front ++ rest)) = .ok (n, rest)) :
    Takes anyValue nesting (c :: front) (.number n) := by
  intro steps _ rest ends
  refine (value_eq_valueWith steps nesting _).trans ?_
  rw [List.cons_append, valueWith_number begins]
  exact congrArg (Except.bind · _) (reads rest ends)

end Kinds

theorem value_settledAt {nesting : Nat}
    (inner : ∀ fewer, nesting = fewer + 1 → SettledAt anyValue fewer) :
    SettledAt anyValue nesting := by
  refine settledAt_of_solid (fun steps text => ?_) fun {steps text rest v} solid read => ?_
  · simp only [anyValue, value_eq_valueWith]
    rw [valueWith, valueWith, skipBlanks_skipBlanks]
  simp only [anyValue, value_eq_valueWith] at read
  rw [valueWith, solid] at read
  split at read
  · contradiction
  · obtain ⟨left, spelled, stored⟩ := bind_eq_ok read
    cases stored
    rw [word_front spelled]
    exact ⟨_, rfl, takes_word (fun _ _ _ => rfl) nesting, outline_null⟩
  · obtain ⟨left, spelled, stored⟩ := bind_eq_ok read
    cases stored
    rw [word_front spelled]
    exact ⟨_, rfl, takes_word (fun _ _ _ => rfl) nesting, outline_true⟩
  · obtain ⟨left, spelled, stored⟩ := bind_eq_ok read
    cases stored
    rw [word_front spelled]
    exact ⟨_, rfl, takes_word (fun _ _ _ => rfl) nesting, outline_false⟩
  · obtain ⟨⟨s, left⟩, spelled, stored⟩ := bind_eq_ok read
    cases stored
    obtain ⟨body, rfl, reads, skips⟩ := stringBody_front spelled
    exact ⟨'"' :: body, rfl, takes_string reads, outline_string skips⟩
  · cases nesting with
    | zero => contradiction
    | succ fewer =>
      obtain ⟨⟨done, left⟩, parts, stored⟩ := bind_eq_ok read
      cases stored
      obtain ⟨front, rfl, outline, reads⟩ := gather_settle (inner fewer rfl) parts
      exact ⟨'[' :: front, rfl, takes_array reads, outline⟩
  · cases nesting with
    | zero => contradiction
    | succ fewer =>
      obtain ⟨⟨done, left⟩, parts, stored⟩ := bind_eq_ok read
      cases stored
      change members (keep (anyValue ⟨steps, fewer⟩)) steps true [] _ = _ at parts
      obtain ⟨front, rfl, outline, reads⟩ :=
        members_settle (keep_settledAt (inner fewer rfl)) parts
      exact ⟨'\x7b' :: front, rfl, takes_object reads, outline⟩
  · split at read
    · rename_i begins
      obtain ⟨⟨n, left⟩, spelled, stored⟩ := bind_eq_ok read
      cases stored
      obtain ⟨digits, some, split, again⟩ := number_front spelled
      cases digits with
      | nil => contradiction
      | cons d digits =>
        obtain ⟨rfl, rfl⟩ := List.cons.inj split
        exact ⟨_, rfl, takes_number begins fun after ends => (again after ends).1,
          outline_number begins fun after ends => (again after ends).2⟩
    · contradiction

theorem anyValue_settled : Settled anyValue := by
  intro nesting
  induction nesting with
  | zero => exact value_settledAt fun _ zero => by contradiction
  | succ nesting ih =>
    refine value_settledAt fun fewer same => ?_
    cases same
    exact ih

end SymbolAtlas.Json
