import SymbolAtlas.Proofs.Json.Settled

/-! What a record makes of its text is settled in the same way, for an object as for an
array of fields, if what it makes of each of its fields is. Skipped members are settled
too, so it does not matter how a record treats those that it does not know. -/
namespace SymbolAtlas.Json

/-! ### Fields of the usual kinds -/

theorem string_settled : Settled string := by
  intro nesting
  refine settledAt_of_solid (fun steps text => ?_) fun {steps text rest s} solid read => ?_
  · rw [string, string, skipBlanks_skipBlanks]
  rw [string, solid] at read
  split at read
  · contradiction
  · obtain ⟨body, rfl, reads, skips⟩ := stringBody_front read
    refine ⟨'"' :: body, rfl, fun steps enough rest _ => ?_, outline_string skips⟩
    exact reads steps (Nat.le_of_succ_le enough) rest
  · contradiction

theorem boolean_settled : Settled boolean := by
  intro nesting
  refine settledAt_of_solid (fun steps text => ?_) fun {steps text rest b} solid read => ?_
  · rw [boolean, boolean, skipBlanks_skipBlanks]
  rw [boolean, solid] at read
  have spelled {expected left : List Char} {c : Bool}
      (read : (word expected left).map (c, ·) = .ok (b, rest)) :
      b = c ∧ left = expected ++ rest := by
    cases found : word expected left with
    | error fault => rw [found] at read; contradiction
    | ok after =>
      rw [found] at read
      cases read
      exact ⟨rfl, word_front found⟩
  split at read
  · contradiction
  · obtain ⟨rfl, rfl⟩ := spelled read
    exact ⟨_, rfl, fun _ _ _ _ => rfl, outline_true⟩
  · obtain ⟨rfl, rfl⟩ := spelled read
    exact ⟨_, rfl, fun _ _ _ _ => rfl, outline_false⟩
  · contradiction

theorem word32_settled : Settled word32 := by
  intro nesting
  refine settledAt_of_solid (fun steps text => ?_) fun {steps text rest n} solid read => ?_
  · rw [word32, word32, skipBlanks_skipBlanks]
  rw [word32, solid] at read
  split at read
  · contradiction
  rename_i c left
  split at read
  · rename_i front
    obtain ⟨⟨i, after⟩, spelled, made⟩ := bind_eq_ok read
    dsimp only at made
    split at made
    · split at made
      · rename_i within
        cases made
        obtain ⟨digits, some, split, again⟩ := number_front spelled
        cases digits with
        | nil => contradiction
        | cons d digits =>
          obtain ⟨rfl, rfl⟩ := List.cons.inj split
          refine ⟨_, rfl, fun steps _ after ends => ?_, outline_number front fun after ends =>
            (again after ends).2⟩
          have digit := not_isJsonBlank_of_number_front front
          have reads := (again after ends).1
          rw [List.cons_append] at reads ⊢
          simp only [word32, skipBlanks_cons digit, if_pos front, reads, bind, Except.bind,
            if_pos within]
      · contradiction
    · contradiction
  · contradiction

theorem list_settled {α : Type} {item : Budget → Reader α} (settled : Settled item) :
    Settled (list item) := by
  intro nesting
  refine settledAt_of_solid (fun steps text => ?_) fun {steps text rest as} solid read => ?_
  · rw [list, list, skipBlanks_skipBlanks]
  rw [list, solid] at read
  split at read
  · contradiction
  · cases nesting with
    | zero => contradiction
    | succ fewer =>
      obtain ⟨⟨done, left⟩, parts, stored⟩ := bind_eq_ok read
      cases stored
      change items (gather (item ⟨steps, fewer⟩)) steps true [] _ = _ at parts
      obtain ⟨front, rfl, outline, again⟩ := gather_settle (settled fewer) parts
      refine ⟨'[' :: front, rfl, fun steps enough rest ends => ?_, outline⟩
      have unfolded : ∀ text, list item ⟨steps, fewer + 1⟩ ('[' :: text) =
          (items (gather (item ⟨steps, fewer⟩)) steps true [] text).bind
            fun done => .ok (done.1.reverse, done.2) := fun _ => rfl
      rw [List.cons_append, unfolded, again steps (Nat.le_of_succ_le enough) rest ends]
      rfl
  · contradiction

section Records
variable {ρ : Type}

theorem Field.of_settled {α : Type} {read : Budget → Reader α} (settled : Settled read)
    (name : String) (store : ρ → α → ρ) (r : ρ) :
    Settled fun b => (Field.of name read store).read b r := by
  intro nesting steps text rest next stored
  obtain ⟨⟨a, left⟩, one, stored⟩ := bind_eq_ok stored
  cases stored
  obtain ⟨front, same, takes, outline⟩ := settled nesting one
  refine ⟨front, same, fun steps enough rest ends => ?_, outline⟩
  simp only [Field.of, takes steps enough rest ends, bind, Except.bind]

/-- A record all of whose fields are settled. -/
def Shape.FieldsSettled (shape : Shape ρ) : Prop :=
  ∀ field ∈ shape.fields, ∀ r, Settled fun b => field.read b r

theorem Shape.member_settledAt {shape : Shape ρ} (settled : shape.FieldsSettled) (nesting : Nat) :
    MemberSettledAt shape.member nesting := by
  intro steps before after name text rest read
  unfold Shape.member at read ⊢
  dsimp only at read ⊢
  split at read
  · rename_i field found
    split at read
    · contradiction
    rename_i unseen
    obtain ⟨left, separated, later⟩ := bind_eq_ok read
    obtain ⟨⟨record, left⟩, one, stored⟩ := bind_eq_ok later
    cases stored
    obtain ⟨gap, blank, rfl⟩ := colon_front separated
    obtain ⟨front, rfl, takes, outline⟩ :=
      settled field (List.mem_of_find?_eq_some found) before.record nesting one
    refine ⟨gap, front, blank, rfl, outline, fun steps enough rest ends => ?_⟩
    have again := takes steps enough rest ends
    simp only [if_neg unseen, colon_append blank, again, bind, Except.bind]
  · rename_i unknown
    obtain ⟨left, separated, one⟩ := bind_eq_ok read
    obtain ⟨gap, blank, rfl⟩ := colon_front separated
    cases inlined : shape.inlined with
    | none =>
      rw [inlined] at one
      obtain ⟨⟨_, left⟩, skipped, stored⟩ := bind_eq_ok one
      cases stored
      obtain ⟨front, rfl, outline⟩ := skip_front skipped
      refine ⟨gap, front, blank, rfl, outline, fun steps enough rest ends => ?_⟩
      have again := outline ⟨steps, steps⟩ enough enough rest ends
      simp only [colon_append blank, again, bind, Except.bind]
    | some fields =>
      rw [inlined] at one
      obtain ⟨⟨v, left⟩, kept, stored⟩ := bind_eq_ok one
      cases stored
      obtain ⟨front, rfl, takes, outline⟩ := anyValue_settled nesting kept
      refine ⟨gap, front, blank, rfl, outline, fun steps enough rest ends => ?_⟩
      have again := takes steps enough rest ends
      simp only [colon_append blank, again, bind, Except.bind]

/-! ### Fields in order -/

/-- A field of which it is known that it is settled. -/
abbrev SettledField (ρ : Type) := { field : Field ρ // ∀ r, Settled fun b => field.read b r }

section Positional
variable {b : Budget} {first : Bool} {r : ρ} {text rest : List Char}

/-- The next field of a record that is written as an array. -/
def nextField (b : Budget) (_ : Nat) :
    List (SettledField ρ) × ρ → Reader (List (SettledField ρ) × ρ)
  | ([], _), _ => .error .malformed
  | (field :: fields, r), text => do
    let (r, rest) ← field.1.read b r text
    .ok ((fields, r), rest)

theorem positionalFields_closes {fields : List (Field ρ)} (closes : skipBlanks text = ']' :: rest) :
    positionalFields b fields first r text = .ok (r, rest) := by
  cases fields with
  | nil => rw [positionalFields, closes]; rfl
  | cons field fields => rw [positionalFields, closes]; rfl

theorem positionalFields_eq_round {field : Field ρ} {fields : List (Field ρ)} :
    positionalFields b (field :: fields) first r text =
      round ']' first (fun rest => .ok (r, rest))
        (fun begun => (field.read b r begun).bind fun next =>
          positionalFields b fields false next.1 next.2) text := by
  rw [← itemRound_eq_round]
  rfl

/-- The fields are read one after another, as long as there are any. -/
theorem rounds_of_positionalFields {fields : List (SettledField ρ)} {final : ρ}
    (read : positionalFields b (fields.map (·.1)) first r text = .ok (final, rest)) :
    ∃ steps left, rounds ']' (nextField b) steps first (fields, r) text =
      .ok ((left, final), rest) := by
  induction fields generalizing first r text with
  | nil =>
    rw [List.map_nil, positionalFields] at read
    split at read
    · contradiction
    · rename_i closes
      cases read
      exact ⟨1, [], rounds_closes closes⟩
    · contradiction
  | cons field fields ih =>
    rw [List.map_cons, positionalFields_eq_round] at read
    rcases round_begins read with ⟨left, closes⟩ | ⟨begun, goes⟩
    · rw [round_closes closes] at read
      cases read
      exact ⟨1, _, rounds_closes closes⟩
    · rw [round_goes (.inl rfl) goes] at read
      obtain ⟨⟨next, left⟩, one, more⟩ := bind_eq_ok read
      obtain ⟨steps, rest, more⟩ := ih more
      refine ⟨steps + 1, rest, (rounds_goes (.inl rfl) goes).trans ?_⟩
      simp only [nextField, one, bind, Except.bind]
      exact more

theorem positionalFields_of_rounds {fields left : List (SettledField ρ)} {steps : Nat} {final : ρ}
    (read : rounds ']' (nextField b) steps first (fields, r) text = .ok ((left, final), rest)) :
    positionalFields b (fields.map (·.1)) first r text = .ok (final, rest) := by
  induction steps generalizing fields first r text with
  | zero => contradiction
  | succ steps ih =>
    rcases round_begins read with ⟨after, closes⟩ | ⟨begun, goes⟩
    · rw [rounds_closes closes] at read
      cases read
      exact positionalFields_closes closes
    · rw [rounds_goes (.inl rfl) goes] at read
      cases fields with
      | nil => contradiction
      | cons field fields =>
        obtain ⟨⟨⟨more, next⟩, after⟩, made, later⟩ := bind_eq_ok read
        obtain ⟨⟨record, after⟩, one, stored⟩ := bind_eq_ok made
        cases stored
        rw [List.map_cons, positionalFields_eq_round, round_goes (.inl rfl) goes, one]
        exact ih later

end Positional

/-! ### Records -/

theorem positionalFields_settle {fields : List (SettledField ρ)} {steps nesting : Nat} {r final : ρ}
    {text rest : List Char}
    (read : positionalFields ⟨steps, nesting⟩ (fields.map (·.1)) true r text = .ok (final, rest)) :
    ∃ front, text = front ++ rest ∧ Outline ('[' :: front) ∧
      ∀ steps, front.length ≤ steps → ∀ rest, NumberEnds rest →
        positionalFields ⟨steps, nesting⟩ (fields.map (·.1)) true r (front ++ rest) =
          .ok (final, rest) := by
  have next {left : Nat} {before after : List (SettledField ρ) × ρ} {text rest : List Char}
      (one : nextField ⟨steps, nesting⟩ left before text = .ok (after, rest)) :
      ∃ front, front ≠ [] ∧ text = front ++ rest ∧
        Follows Eq (fun b => nextField ⟨b.steps, nesting⟩) front before after ∧
        Follows NoState skippedItems front before after := by
    obtain ⟨fields, r⟩ := before
    cases fields with
    | nil => contradiction
    | cons field fields =>
      obtain ⟨⟨record, left⟩, one, stored⟩ := bind_eq_ok one
      cases stored
      obtain ⟨front, same, takes, outline⟩ := field.2 r nesting one
      refine ⟨front, outline.ne_nil, same, ?_, outline.follows⟩
      intro b _ wide _ _ start
      rintro rfl
      refine ⟨_, rfl, fun rest ends => ?_⟩
      have again := takes b.steps wide rest ends
      simp only [nextField, again, bind, Except.bind]
  obtain ⟨steps, left, parts⟩ := rounds_of_positionalFields read
  obtain ⟨front, same, takes, skips⟩ := rounds_settle (.inl rfl) next parts
  refine ⟨front, same, outline_array skips, fun steps enough rest ends => ?_⟩
  obtain ⟨_, rfl, reads⟩ := takes ⟨steps, front.length⟩ steps enough (Nat.le_refl _) enough _ rfl
  exact positionalFields_of_rounds (reads rest ends)

theorem Shape.read_settled {shape : Shape ρ} (settled : shape.FieldsSettled) :
    Settled shape.read := by
  intro nesting
  refine settledAt_of_solid (fun steps text => ?_) fun {steps text rest r} solid read => ?_
  · rw [Shape.read, Shape.read, skipBlanks_skipBlanks]
  rw [Shape.read, solid] at read
  split at read
  · contradiction
  · cases nesting with
    | zero => contradiction
    | succ fewer =>
      obtain ⟨⟨p, left⟩, parts, later⟩ := bind_eq_ok read
      obtain ⟨record, finished, stored⟩ := bind_eq_ok later
      cases stored
      obtain ⟨front, rfl, outline, again⟩ :=
        members_settle (shape.member_settledAt settled fewer) parts
      refine ⟨'\x7b' :: front, rfl, fun steps enough rest ends => ?_, outline⟩
      have unfolded : ∀ text, shape.read ⟨steps, fewer + 1⟩ ('\x7b' :: text) =
          (members (shape.member ⟨steps, fewer⟩) steps true { record := shape.default } text).bind
            fun p => (shape.finish p.1).bind fun record => .ok (record, p.2) := fun _ => rfl
      rw [List.cons_append, unfolded, again steps (Nat.le_of_succ_le enough) rest ends]
      simp only [Except.bind, finished]
  · split at read
    · rename_i opened
      obtain ⟨rfl, plain⟩ := opened
      cases nesting with
      | zero => contradiction
      | succ fewer =>
        have same := List.attachWith_map_subtype_val (l := shape.fields) settled
        dsimp only at read
        rw [← same] at read
        obtain ⟨front, rfl, outline, again⟩ := positionalFields_settle read
        refine ⟨'[' :: front, rfl, fun steps enough rest ends => ?_, outline⟩
        have unfolded : ∀ text, shape.read ⟨steps, fewer + 1⟩ ('[' :: text) =
            if '[' = '[' ∧ shape.inlined.isNone then
              positionalFields ⟨steps, fewer⟩ shape.fields true shape.default text
            else .error (unexpected steps ("struct " ++ shape.name) '[' text) := fun _ => rfl
        rw [List.cons_append, unfolded, if_pos ⟨rfl, plain⟩, ← same]
        exact again steps (Nat.le_of_succ_le enough) rest ends
    · contradiction

end Records

end SymbolAtlas.Json
