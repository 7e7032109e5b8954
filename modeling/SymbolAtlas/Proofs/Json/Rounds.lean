import SymbolAtlas.Proofs.Json.Fronts

/-! The loops over the parts of arrays and over the members of objects all go round in
one way: a bracket closes them, or a part follows, with a comma before it unless it is
the first. `rounds` is that loop for any kind of part, and each of the others is a case
of it. The main statement is about two such loops: where each part that one takes is
taken off the same front by the other, all that the one takes is taken off the same
front by the other. -/
namespace SymbolAtlas.Json

/-! ### One round -/

/-- One round of a loop over a text: what `closed` makes of the rest behind the closing
bracket, or what `part` makes of the text from the next part on. -/
def round {α : Type} (close : Char) (first : Bool) (closed part : List Char → Except Fault α)
    (text : List Char) : Except Fault α :=
  match skipBlanks text with
  | [] => .error .truncated
  | c :: rest =>
    if c = close then closed rest
    else if first then part (c :: rest)
    else if c = ',' then
      match skipBlanks rest with
      | [] => .error .truncated
      | d :: rest => if d = close then .error .malformed else part (d :: rest)
    else .error .malformed

/-- One round over the parts of an array. -/
def itemRound {α : Type} (first : Bool) (closed part : List Char → Except Fault α)
    (text : List Char) : Except Fault α :=
  match skipBlanks text with
  | [] => .error .truncated
  | ']' :: rest => closed rest
  | c :: rest =>
    if first then part (c :: rest)
    else if c = ',' then
      match skipBlanks rest with
      | [] => .error .truncated
      | ']' :: _ => .error .malformed
      | next => part next
    else .error .malformed

/-- One round over the members of an object. -/
def memberRound {α : Type} (first : Bool) (closed named : List Char → Except Fault α)
    (text : List Char) : Except Fault α :=
  match skipBlanks text with
  | [] => .error .truncated
  | '\x7d' :: rest => closed rest
  | c :: rest =>
    if first then
      if c = '"' then named rest else .error .malformed
    else if c = ',' then
      match skipBlanks rest with
      | [] => .error .truncated
      | '"' :: rest => named rest
      | _ => .error .malformed
    else .error .malformed

/-- A part that begins with a quote, and what `named` makes of the rest. -/
def quoted {α : Type} (named : List Char → Except Fault α) : List Char → Except Fault α
  | '"' :: body => named body
  | _ => .error .malformed

section Kinds
variable {α : Type} {first : Bool} {closed part named : List Char → Except Fault α}
  {text : List Char}

theorem itemRound_eq_round :
    itemRound first closed part text = round ']' first closed part text := by
  unfold itemRound round
  cases skipBlanks text with
  | nil => rfl
  | cons c rest =>
    by_cases closes : c = ']'
    · subst closes; rfl
    dsimp only
    rw [if_neg closes]
    split
    · contradiction
    · rename_i same
      exact absurd (List.cons.inj same).1 closes
    rename_i same
    obtain ⟨rfl, rfl⟩ := List.cons.inj same
    split
    · rfl
    split
    · cases skipBlanks rest with
      | nil => rfl
      | cons d rest =>
        by_cases closes : d = ']'
        · subst closes; rfl
        dsimp only
        rw [if_neg closes]
        split
        · contradiction
        · rename_i same
          exact absurd (List.cons.inj same).1 closes
        · rfl
    · rfl

theorem quoted_other {c : Char} (other : c ≠ '"') (rest : List Char) :
    quoted named (c :: rest) = .error .malformed := by
  unfold quoted
  split
  · rename_i same
    exact absurd (List.cons.inj same).1 other
  · rfl

/-- A quote begins a part wherever it stands, and nothing else does in an object. -/
theorem memberRound_eq_round :
    memberRound first closed named text = round '\x7d' first closed (quoted named) text := by
  unfold memberRound round
  cases skipBlanks text with
  | nil => rfl
  | cons c rest =>
    by_cases closes : c = '\x7d'
    · subst closes; rfl
    dsimp only
    rw [if_neg closes]
    split
    · contradiction
    · rename_i same
      exact absurd (List.cons.inj same).1 closes
    rename_i same
    obtain ⟨rfl, rfl⟩ := List.cons.inj same
    split
    · split
      · subst c; rfl
      · rename_i other
        exact (quoted_other other rest).symm
    split
    · cases skipBlanks rest with
      | nil => rfl
      | cons d rest =>
        dsimp only
        split
        · contradiction
        · rename_i same
          obtain ⟨rfl, rfl⟩ := List.cons.inj same
          rfl
        · rename_i other
          have other : d ≠ '"' := fun same => other rest (same ▸ rfl)
          rw [quoted_other other]
          split <;> rfl
    · rfl

end Kinds

/-! ### How a round begins -/

def IsClosing (c : Char) : Prop := c = ']' ∨ c = '\x7d'

theorem IsClosing.numberEnds {close : Char} (closing : IsClosing close) (rest : List Char) :
    NumberEnds (close :: rest) := by
  refine numberEnds_cons ?_ rest
  rcases closing with rfl | rfl <;> decide

/-- Where the next part begins: after blanks, and after a comma and blanks if it is not
the first. The closing bracket begins no part. -/
inductive Goes (close : Char) : Bool → List Char → List Char → Prop
  | first {text more : List Char} {c : Char} (found : skipBlanks text = c :: more)
      (other : c ≠ close) : Goes close true text (c :: more)
  | later {text mid more : List Char} {c : Char} (comma : skipBlanks text = ',' :: mid)
      (found : skipBlanks mid = c :: more) (other : c ≠ close) : Goes close false text (c :: more)

section Round
variable {α : Type} {close : Char} {first : Bool} {closed part : List Char → Except Fault α}
  {text begun rest : List Char}

theorem round_closes (closes : skipBlanks text = close :: rest) :
    round close first closed part text = closed rest := by
  rw [round, closes]
  exact if_pos rfl

theorem round_goes (closing : IsClosing close) (goes : Goes close first text begun) :
    round close first closed part text = part begun := by
  cases goes with
  | first found other =>
    rw [round, found]
    dsimp only
    rw [if_neg other]
    rfl
  | later comma found other =>
    have apart : ',' ≠ close := by rcases closing with rfl | rfl <;> decide
    rw [round, comma]
    dsimp only
    rw [if_neg apart, if_neg Bool.false_ne_true, if_pos rfl, found]
    dsimp only
    rw [if_neg other]

/-- There is no other way to go on. -/
theorem round_begins {done : α} (read : round close first closed part text = .ok done) :
    (∃ rest, skipBlanks text = close :: rest) ∨ ∃ begun, Goes close first text begun := by
  rw [round] at read
  cases found : skipBlanks text with
  | nil =>
    rw [found] at read
    contradiction
  | cons c more =>
    by_cases closes : c = close
    · exact .inl ⟨more, closes ▸ rfl⟩
    right
    rw [found] at read
    dsimp only at read
    rw [if_neg closes] at read
    cases first with
    | true => exact ⟨_, .first found closes⟩
    | false =>
      rw [if_neg Bool.false_ne_true] at read
      split at read
      · subst c
        cases further : skipBlanks more with
        | nil =>
          rw [further] at read
          contradiction
        | cons d after =>
          rw [further] at read
          dsimp only at read
          split at read
          · contradiction
          · exact ⟨_, .later found further ‹_›⟩
      · contradiction

/-- What comes before a part does not depend on the part, but for its first character. -/
theorem Goes.gap (goes : Goes close first text begun) :
    ∃ gap, text = gap ++ begun ∧
      (∀ after, after.head? = begun.head? → Goes close first (gap ++ after) after) ∧
      (first = false → ∀ after, NumberEnds (gap ++ after)) := by
  cases goes with
  | @first _ more c found other =>
    obtain ⟨gap, blank, split⟩ := skipBlanks_split text
    rw [found] at split
    refine ⟨gap, split, fun after same => ?_, fun no => nomatch no⟩
    obtain ⟨more', rfl⟩ := List.head?_eq_some_iff.mp same
    refine .first ?_ other
    rw [skipBlanks_append blank, skipBlanks_cons (solid_of_skipBlanks found)]
  | @later _ mid more c comma found other =>
    obtain ⟨gap, blank, split⟩ := skipBlanks_split text
    obtain ⟨second, blankToo, splitToo⟩ := skipBlanks_split mid
    rw [comma] at split
    rw [found] at splitToo
    refine ⟨gap ++ ',' :: second, by rw [split, splitToo]; simp, fun after same => ?_,
      fun _ after => ?_⟩
    · obtain ⟨more', rfl⟩ := List.head?_eq_some_iff.mp same
      have comma : skipBlanks (gap ++ ',' :: (second ++ c :: more')) =
          ',' :: (second ++ c :: more') := by
        rw [skipBlanks_append blank, skipBlanks_cons rfl]
      rw [List.append_assoc, List.cons_append]
      refine .later comma ?_ other
      rw [skipBlanks_append blankToo, skipBlanks_cons (solid_of_skipBlanks found)]
    · rw [List.append_assoc]
      exact numberEnds_append blank (numberEnds_cons (by decide) _)

end Round

/-! ### One loop for all -/

/-- Part after part up to the closing bracket, which is taken as well. A part is told how
many steps are left. -/
def rounds {σ : Type} (close : Char) (part : Nat → σ → Reader σ) : Nat → Bool → σ → Reader σ
  | 0, _, _, _ => .error .malformed
  | steps + 1, first, state, text =>
    round close first (fun rest => .ok (state, rest))
      (fun begun => (part (steps + 1) state begun).bind fun next =>
        rounds close part steps false next.1 next.2) text

/-- A member of an object, after the quote that opens its name. -/
def namedMember {σ : Type} (member : σ → String → Reader σ) (steps : Nat) (state : σ) :
    Reader σ := fun body => do
  let (name, rest) ← stringBody steps [] body
  member state name rest

/-- A member of a skipped object, after the quote that opens its name. -/
def skippedMember (inner : Reader Unit) (steps : Nat) : Reader Unit := fun body => do
  let rest ← skipString steps body
  let rest ← colon rest
  inner rest

section Loops
variable {σ : Type} {first : Bool} {text : List Char}

theorem items_eq_rounds (item : σ → Reader σ) (steps : Nat) (state : σ) :
    items item steps first state text = rounds ']' (fun _ => item) steps first state text := by
  induction steps generalizing first state text with
  | zero => rfl
  | succ steps ih =>
    have unfolded : items item (steps + 1) first state text =
        itemRound first (fun rest => .ok (state, rest))
          (fun begun => (item state begun).bind fun next =>
            items item steps false next.1 next.2) text := rfl
    rw [unfolded, itemRound_eq_round, rounds]
    simp only [ih]

theorem members_eq_rounds (member : σ → String → Reader σ) (steps : Nat) (state : σ) :
    members member steps first state text =
      rounds '\x7d' (fun steps state => quoted (namedMember member steps state)) steps first state
        text := by
  induction steps generalizing first state text with
  | zero => rfl
  | succ steps ih =>
    have unfolded : members member (steps + 1) first state text =
        memberRound first (fun rest => .ok (state, rest))
          (fun body => (stringBody (steps + 1) [] body).bind fun name =>
            (member state name.1 name.2).bind fun next =>
              members member steps false next.1 next.2) text := rfl
    rw [unfolded, memberRound_eq_round, rounds]
    congr 1
    funext begun
    unfold quoted
    split
    · simp only [ih, namedMember]
      cases stringBody (steps + 1) [] _ <;> rfl
    · rfl

theorem skipMembers_eq_rounds (inner : Reader Unit) (steps : Nat) :
    skipWith.skipMembers inner steps first text =
      rounds '\x7d' (fun steps _ => quoted (skippedMember inner steps)) steps first () text := by
  induction steps generalizing first text with
  | zero => rfl
  | succ steps ih =>
    have unfolded : skipWith.skipMembers inner (steps + 1) first text =
        memberRound first (fun rest => .ok ((), rest))
          (fun body => (skipString (steps + 1) body).bind fun rest => (colon rest).bind fun rest =>
            (inner rest).bind fun next => skipWith.skipMembers inner steps false next.2) text := rfl
    rw [unfolded, memberRound_eq_round, rounds]
    congr 1
    funext begun
    unfold quoted
    split
    · rename_i body
      simp only [ih, skippedMember]
      cases skipString (steps + 1) body with
      | error fault => rfl
      | ok rest =>
        show (colon rest).bind _ = Except.bind (colon rest >>= _) _
        cases colon rest <;> rfl
    · rfl

end Loops

section Rounds
variable {σ : Type} {close : Char} {part : Nat → σ → Reader σ} {steps : Nat} {first : Bool}
  {state : σ} {text begun rest : List Char}

theorem rounds_closes (closes : skipBlanks text = close :: rest) :
    rounds close part (steps + 1) first state text = .ok (state, rest) := round_closes closes

theorem rounds_goes (closing : IsClosing close) (goes : Goes close first text begun) :
    rounds close part (steps + 1) first state text =
      (part (steps + 1) state begun).bind fun next =>
        rounds close part steps false next.1 next.2 := round_goes closing goes

end Rounds

/-! ### Two loops -/

/-- With any budget and any steps that are enough for the front, `other` takes it off
whatever follows, and goes on in a state that is related in the same way. -/
def Follows {σ τ : Type} (related : σ → τ → Prop) (other : Budget → Nat → τ → Reader τ)
    (front : List Char) (before after : σ) : Prop :=
  ∀ (b : Budget) (steps : Nat), front.length ≤ b.steps → front.length ≤ b.nesting →
    front.length ≤ steps → ∀ start, related before start → ∃ final, related after final ∧
      ∀ rest, NumberEnds rest → other b steps start (front ++ rest) = .ok (final, rest)

theorem rounds_follow {σ τ : Type} {related : σ → τ → Prop} {close : Char}
    {part : Nat → σ → Reader σ} {other : Budget → Nat → τ → Reader τ} (closing : IsClosing close)
    (each : ∀ {steps before text after rest}, part steps before text = .ok (after, rest) →
      ∃ front, front ≠ [] ∧ text = front ++ rest ∧ Follows related other front before after)
    {steps : Nat} {first : Bool} {before after : σ} {text rest : List Char}
    (read : rounds close part steps first before text = .ok (after, rest)) :
    ∃ front, front ≠ [] ∧ text = front ++ rest ∧
      Follows related (fun b steps => rounds close (other b) steps first) front before after ∧
      (first = false → ∀ rest, NumberEnds (front ++ rest)) := by
  induction steps generalizing first before text with
  | zero => contradiction
  | succ steps ih =>
    rcases round_begins read with ⟨left, closes⟩ | ⟨begun, goes⟩
    · rw [rounds_closes closes] at read
      cases read
      obtain ⟨gap, blank, split⟩ := skipBlanks_split text
      rw [closes] at split
      refine ⟨gap ++ [close], by simp, by simpa using split, ?_, fun _ rest => ?_⟩
      · intro b steps _ _ enough start same
        refine ⟨start, same, fun rest _ => ?_⟩
        simp only [List.length_append, List.length_singleton] at enough
        obtain ⟨steps, rfl⟩ := Nat.exists_eq_add_of_le' (Nat.le_trans (Nat.le_add_left 1 _) enough)
        refine rounds_closes ?_
        rw [List.append_assoc, skipBlanks_append blank]
        exact skipBlanks_cons (solid_of_skipBlanks closes) rest
      · rw [List.append_assoc]
        exact numberEnds_append blank (closing.numberEnds rest)
    · rw [rounds_goes closing goes] at read
      obtain ⟨⟨middle, left⟩, one, more⟩ := bind_eq_ok read
      obtain ⟨front, some, rfl, follows⟩ := each one
      obtain ⟨fronts, _, rfl, followsMore, ends⟩ := ih more
      obtain ⟨gap, rfl, again, apart⟩ := goes.gap
      have head (tail : List Char) : (front ++ tail).head? = front.head? := by
        rw [List.head?_append, Option.or_of_isSome (List.isSome_head?.mpr some)]
      refine ⟨gap ++ (front ++ fronts), by simp [some], by simp, ?_, fun later rest => ?_⟩
      · intro b steps wide deep enough start same
        simp only [List.length_append] at wide deep enough
        have long : 0 < front.length := List.length_pos_iff.mpr some
        obtain ⟨steps, rfl⟩ := Nat.exists_eq_add_of_le' (show 1 ≤ steps by omega)
        obtain ⟨mid, sameMid, takes⟩ :=
          follows b (steps + 1) (by omega) (by omega) (by omega) start same
        obtain ⟨final, sameFinal, takesMore⟩ :=
          followsMore b steps (by omega) (by omega) (by omega) mid sameMid
        refine ⟨final, sameFinal, fun rest numberEnds => ?_⟩
        have begun := again (front ++ (fronts ++ rest)) ((head _).trans (head _).symm)
        rw [List.append_assoc, List.append_assoc]
        refine (rounds_goes closing begun).trans ?_
        rw [takes _ (ends rfl rest)]
        exact takesMore rest numberEnds
      · rw [List.append_assoc]
        exact apart later _

end SymbolAtlas.Json
