import SymbolAtlas.Proofs.Json.SettledRecords
import SymbolAtlas.Proofs.Text.Splitting

/-! An object member by member, as it is written: with its blanks, its spelling of the
names and the text of its values. What is read of such an object is what its members make
one after another of the state before the first, each by its name and its value alone; and
every object that is read at all can be taken apart in this way. -/
namespace SymbolAtlas.Json
open Text

/-! ### Members -/

instance (gap : List Char) : Decidable (Blank gap) :=
  List.decidableBAll (isJsonBlank · = true) gap

/-- A member as it is written, with the blanks around it. -/
structure RawMember where
  before : List Char := []
  /-- The name as it is spelled, up to the closing quote. -/
  spelled : List Char
  name : String
  between : List Char := []
  value : List Char
  after : List Char := []
  blankBefore : Blank before := by decide
  blankBetween : Blank between := by decide
  blankAfter : Blank after := by decide
  decoded : stringBody spelled.length [] spelled = .ok (name, [])
  /-- Brackets of the value may be nested to any depth. -/
  outlined : skip value.length value.length value = .ok ((), [])

/-- What is read of a text, if nothing of it is left. -/
def exactly {α : Type} : Except Fault (α × List Char) → Option α
  | .ok (a, []) => some a
  | _ => none

theorem exactly_eq_some {α : Type} {read : Except Fault (α × List Char)} {a : α} :
    exactly read = some a ↔ read = .ok (a, []) := by
  unfold exactly
  split
  · simp
  · rename_i other
    exact ⟨nofun, fun same => absurd same (other a)⟩

theorem colon_unique {gap other left right : List Char} (blank : Blank gap) (blankToo : Blank other)
    (same : gap ++ ':' :: left = other ++ ':' :: right) : gap = other ∧ left = right := by
  have rests : left = right := by
    have found := colon_append blank left
    rw [same, colon_append blankToo] at found
    exact (Except.ok.inj found).symm
  subst rests
  exact ⟨List.append_cancel_right same, rfl⟩

/-- Two outlines at the same place are one. -/
theorem Outline.unique {front other rest left : List Char} (one : Outline front)
    (two : Outline other) (ends : NumberEnds rest) (endsToo : NumberEnds left)
    (same : front ++ rest = other ++ left) : rest = left := by
  let b : Budget := ⟨front.length + other.length, front.length + other.length⟩
  have first := one b (Nat.le_add_right _ _) (Nat.le_add_right _ _) rest ends
  have second := two b (Nat.le_add_left _ _) (Nat.le_add_left _ _) left endsToo
  rw [same, second] at first
  exact (congrArg Prod.snd (Except.ok.inj first)).symm

namespace RawMember
variable {σ : Type} {member : Budget → σ → String → Reader σ} {nesting : Nat}

/-- The member from its opening quote on, in front of `rest`. -/
def solid (m : RawMember) (rest : List Char) : List Char :=
  '"' :: (m.spelled ++ (m.between ++ ':' :: (m.value ++ rest)))

def chars (m : RawMember) : List Char := m.before ++ m.solid m.after

/-- What the member on its own makes of a state. -/
def taken (member : Budget → σ → String → Reader σ) (nesting : Nat) (state : σ) (m : RawMember) :
    Option σ :=
  exactly (member ⟨m.value.length, nesting⟩ state m.name (m.between ++ ':' :: m.value))

theorem outline (m : RawMember) : Outline m.value := by
  obtain ⟨front, same, outline⟩ := skip_front m.outlined
  rw [List.append_nil] at same
  exact same ▸ outline

theorem stringBody_spelled (m : RawMember) {steps : Nat} (enough : m.spelled.length ≤ steps)
    (rest : List Char) : stringBody steps [] (m.spelled ++ rest) = .ok (m.name, rest) := by
  obtain ⟨body, same, reads, -⟩ := stringBody_front m.decoded
  rw [List.append_nil] at same
  rw [same] at enough ⊢
  exact reads steps enough rest

section Settled
variable (settled : MemberSettledAt member nesting)
include settled

/-- What a member makes of a state is the same whatever follows it. -/
theorem read_of_taken {m : RawMember} {state next : σ}
    (taken : m.taken member nesting state = some next) {steps : Nat}
    (enough : m.value.length ≤ steps) {rest : List Char} (ends : NumberEnds rest) :
    member ⟨steps, nesting⟩ state m.name (m.between ++ ':' :: (m.value ++ rest)) =
      .ok (next, rest) := by
  obtain ⟨gap, value, blank, same, -, again⟩ := settled (exactly_eq_some.mp taken)
  rw [List.append_nil] at same
  obtain ⟨rfl, rfl⟩ := colon_unique m.blankBetween blank same
  exact again steps enough rest ends

theorem taken_of_read {m : RawMember} {state next : σ} {steps : Nat} {rest left : List Char}
    (read : member ⟨steps, nesting⟩ state m.name (m.between ++ ':' :: (m.value ++ rest)) =
      .ok (next, left)) (ends : NumberEnds rest) (endsToo : NumberEnds left) :
    left = rest ∧ m.taken member nesting state = some next := by
  obtain ⟨gap, value, blank, same, outline, again⟩ := settled read
  obtain ⟨rfl, together⟩ := colon_unique m.blankBetween blank same
  obtain rfl := m.outline.unique outline ends endsToo together
  obtain rfl := List.append_cancel_right together
  refine ⟨rfl, exactly_eq_some.mpr ?_⟩
  have alone := again m.value.length (Nat.le_refl _) [] numberEnds_nil
  rwa [List.append_nil] at alone

end Settled

end RawMember

/-! ### The loop over the members -/

/-- The loop over the members of an object, where `b` is what each may spend. -/
def memberLoop {σ : Type} (member : Budget → σ → String → Reader σ) (b : Budget) :
    Nat → Bool → σ → Reader σ :=
  rounds '\x7d' fun steps state => quoted (namedMember (member b) steps state)

/-- Nothing that goes on to another part, or closes, goes on with the number before it. -/
theorem numberEnds_of_rounds {σ : Type} {close : Char} {part : Nat → σ → Reader σ} {steps : Nat}
    {state : σ} {text : List Char} {done : σ × List Char} (closing : IsClosing close)
    (read : rounds close part steps false state text = .ok done) : NumberEnds text := by
  cases steps with
  | zero => contradiction
  | succ steps =>
    rcases round_begins read with ⟨left, closes⟩ | ⟨begun, goes⟩
    · obtain ⟨gap, blank, split⟩ := skipBlanks_split text
      rw [split, closes]
      exact numberEnds_append blank (closing.numberEnds left)
    · obtain ⟨gap, rfl, -, apart⟩ := goes.gap
      exact apart rfl begun

section Loop
variable {σ : Type} {member : Budget → σ → String → Reader σ} {nesting : Nat}
  (settled : MemberSettledAt member nesting)
include settled

/-- The loop goes on behind a member with what the member makes of the state. -/
theorem memberLoop_goes_iff {m : RawMember} {wide steps : Nat} {first : Bool}
    {text rest : List Char} (goes : Goes '\x7d' first text (m.solid rest))
    (enough : (m.solid rest).length ≤ steps + 1)
    (fits : (m.solid rest).length ≤ wide) (ends : NumberEnds rest) {state : σ}
    {done : σ × List Char} :
    memberLoop member ⟨wide, nesting⟩ (steps + 1) first state text = .ok done ↔
      ∃ next, m.taken member nesting state = some next ∧
        memberLoop member ⟨wide, nesting⟩ steps false next rest = .ok done := by
  simp only [RawMember.solid, List.length_cons, List.length_append] at enough fits
  have unfolded : memberLoop member ⟨wide, nesting⟩ (steps + 1) first state text =
      (member ⟨wide, nesting⟩ state m.name (m.between ++ ':' :: (m.value ++ rest))).bind
        fun next => memberLoop member ⟨wide, nesting⟩ steps false next.1 next.2 := by
    refine (rounds_goes (.inr rfl) goes).trans ?_
    simp only [RawMember.solid, quoted, namedMember, bind, Except.bind,
      m.stringBody_spelled (show _ ≤ steps + 1 by omega)]
    rfl
  rw [unfolded]
  constructor
  · intro read
    obtain ⟨⟨next, left⟩, one, more⟩ := bind_eq_ok read
    have endsToo := numberEnds_of_rounds (.inr rfl) more
    obtain ⟨rfl, taken⟩ := RawMember.taken_of_read settled one ends endsToo
    exact ⟨next, taken, more⟩
  · rintro ⟨next, taken, more⟩
    rw [RawMember.read_of_taken settled taken (by omega) ends]
    exact more

end Loop

/-! ### Members in a row -/

section Written
variable (inner rest : List Char)

/-- Members each after a comma, up to the closing bracket and in front of `rest`. -/
def laterMembers : List RawMember → List Char
  | [] => inner ++ '\x7d' :: rest
  | m :: ms => ',' :: (m.before ++ m.solid (m.after ++ laterMembers ms))

/-- The members of an object with commas between them, up to the closing bracket and in
front of `rest`. -/
def objectBody (ms : List RawMember) : List Char :=
  joinSegments ',' (ms.map RawMember.chars) ++ (inner ++ '\x7d' :: rest)

theorem laterMembers_eq (ms : List RawMember) :
    laterMembers inner rest ms =
      (ms.map RawMember.chars).flatMap (',' :: ·) ++ (inner ++ '\x7d' :: rest) := by
  induction ms with
  | nil => rfl
  | cons m ms ih => simp [laterMembers, ih, RawMember.chars, RawMember.solid]

theorem objectBody_cons (m : RawMember) (ms : List RawMember) :
    objectBody inner rest (m :: ms) =
      m.before ++ m.solid (m.after ++ laterMembers inner rest ms) := by
  have joined := flatMap_sep_eq_joinSegments ',' (List.cons_ne_nil m.chars (ms.map RawMember.chars))
  rw [List.flatMap_cons, List.cons_append, List.cons.injEq] at joined
  rw [objectBody, List.map_cons, ← joined.2, laterMembers_eq]
  simp [RawMember.chars, RawMember.solid]

end Written

section Ends
variable {inner : List Char} (blank : Blank inner) (rest : List Char)
include blank

theorem numberEnds_laterMembers (ms : List RawMember) :
    NumberEnds (laterMembers inner rest ms) := by
  cases ms with
  | nil => exact numberEnds_append blank (numberEnds_cons (by decide) rest)
  | cons => exact numberEnds_cons (by decide) _

theorem memberLoop_closes {σ : Type} {member : Budget → σ → String → Reader σ} {b : Budget}
    {steps : Nat} {first : Bool} {state : σ} (enough : (inner ++ '\x7d' :: rest).length ≤ steps) :
    memberLoop member b steps first state (inner ++ '\x7d' :: rest) = .ok (state, rest) := by
  rw [List.length_append, List.length_cons] at enough
  obtain ⟨steps, rfl⟩ := Nat.exists_eq_add_of_le' (show 1 ≤ steps by omega)
  refine rounds_closes ?_
  rw [skipBlanks_append blank]
  exact skipBlanks_cons rfl rest

end Ends

theorem RawMember.goes_first (m : RawMember) (rest : List Char) :
    Goes '\x7d' true (m.before ++ m.solid rest) (m.solid rest) := by
  refine .first ?_ (by decide)
  rw [skipBlanks_append m.blankBefore]
  exact skipBlanks_cons rfl _

theorem RawMember.goes_later {gap : List Char} (blank : Blank gap) (m : RawMember)
    (rest : List Char) :
    Goes '\x7d' false (gap ++ ',' :: (m.before ++ m.solid rest)) (m.solid rest) := by
  have comma : skipBlanks (gap ++ ',' :: (m.before ++ m.solid rest)) =
      ',' :: (m.before ++ m.solid rest) := by
    rw [skipBlanks_append blank]
    exact skipBlanks_cons rfl _
  refine .later comma ?_ (by decide)
  rw [skipBlanks_append m.blankBefore]
  exact skipBlanks_cons rfl _

section Row
variable {σ : Type} {member : Budget → σ → String → Reader σ} {nesting : Nat}
  (settled : MemberSettledAt member nesting) {ms : List RawMember} {wide steps : Nat} {state : σ}
  {inner rest : List Char} (blank : Blank inner) {done : σ × List Char}
include settled blank

/-- From a member on, the loop is the fold over it and the members after it, if it is the
fold over those behind it. -/
theorem memberLoop_row_iff {m : RawMember} {first : Bool} {text : List Char}
    (goes : Goes '\x7d' first text (m.solid (m.after ++ laterMembers inner rest ms)))
    (enough : text.length ≤ steps + 1) (fits : text.length ≤ wide)
    (later : ∀ next,
      memberLoop member ⟨wide, nesting⟩ steps false next (m.after ++ laterMembers inner rest ms) =
        .ok done ↔
      ∃ final, ms.foldlM (RawMember.taken member nesting) next = some final ∧
        done = (final, rest)) :
    memberLoop member ⟨wide, nesting⟩ (steps + 1) first state text = .ok done ↔
      ∃ final, (m :: ms).foldlM (RawMember.taken member nesting) state = some final ∧
        done = (final, rest) := by
  have ends := numberEnds_append m.blankAfter (numberEnds_laterMembers blank rest ms)
  have shorter : (m.solid (m.after ++ laterMembers inner rest ms)).length ≤ text.length := by
    obtain ⟨gap, same, -⟩ := goes.gap
    rw [same, List.length_append]
    exact Nat.le_add_left _ _
  rw [memberLoop_goes_iff settled goes (by omega) (by omega) ends]
  simp only [later, List.foldlM_cons]
  constructor
  · rintro ⟨next, taken, final, folded, same⟩
    exact ⟨final, Option.bind_eq_some_iff.mpr ⟨next, taken, folded⟩, same⟩
  · rintro ⟨final, folded, same⟩
    obtain ⟨next, taken, folded⟩ := Option.bind_eq_some_iff.mp folded
    exact ⟨next, taken, final, folded, same⟩

theorem memberLoop_later_iff {gap : List Char} (blankToo : Blank gap)
    (enough : (gap ++ laterMembers inner rest ms).length ≤ steps)
    (fits : (gap ++ laterMembers inner rest ms).length ≤ wide) :
    memberLoop member ⟨wide, nesting⟩ steps false state (gap ++ laterMembers inner rest ms) =
        .ok done ↔
      ∃ final, ms.foldlM (RawMember.taken member nesting) state = some final ∧
        done = (final, rest) := by
  induction ms generalizing gap steps state with
  | nil =>
    rw [laterMembers, ← List.append_assoc] at enough ⊢
    have both : Blank (gap ++ inner) := List.forall_mem_append.mpr ⟨blankToo, blank⟩
    rw [memberLoop_closes both rest enough]
    simp [eq_comm]
  | cons m ms ih =>
    have shorter : (m.after ++ laterMembers inner rest ms).length + 1 ≤
        (gap ++ laterMembers inner rest (m :: ms)).length := by
      simp only [laterMembers, RawMember.solid, List.length_append, List.length_cons]
      omega
    obtain ⟨steps, rfl⟩ := Nat.exists_eq_add_of_le' (show 1 ≤ steps by omega)
    exact memberLoop_row_iff settled blank (m.goes_later blankToo _) enough fits fun next =>
      ih m.blankAfter (by omega) (by omega)

/-- The loop over an object that is written out is the fold over its members. -/
theorem memberLoop_iff (enough : (objectBody inner rest ms).length ≤ steps)
    (fits : (objectBody inner rest ms).length ≤ wide) :
    memberLoop member ⟨wide, nesting⟩ steps true state (objectBody inner rest ms) = .ok done ↔
      ∃ final, ms.foldlM (RawMember.taken member nesting) state = some final ∧
        done = (final, rest) := by
  cases ms with
  | nil =>
    have nothing : objectBody inner rest [] = inner ++ '\x7d' :: rest := rfl
    rw [nothing] at enough ⊢
    rw [memberLoop_closes blank rest enough]
    simp [eq_comm]
  | cons m ms =>
    rw [objectBody_cons] at enough fits ⊢
    have shorter : (m.after ++ laterMembers inner rest ms).length + 1 ≤
        (m.before ++ m.solid (m.after ++ laterMembers inner rest ms)).length := by
      simp only [RawMember.solid, List.length_append, List.length_cons]
      omega
    obtain ⟨steps, rfl⟩ := Nat.exists_eq_add_of_le' (show 1 ≤ steps by omega)
    exact memberLoop_row_iff settled blank (m.goes_first _) enough fits fun next =>
      memberLoop_later_iff settled blank m.blankAfter (by omega) (by omega)

end Row

/-! ### Taking an object apart -/

section Apart
variable {σ : Type} {member : Budget → σ → String → Reader σ} {b : Budget}
  (settled : MemberSettledAt member b.nesting) {steps : Nat} {state final : σ}
  {text rest : List Char}
include settled

/-- What the loop takes as one part is a member, whatever blanks are put around it. -/
theorem part_apart {before after : List Char} (blank : Blank before) (blankToo : Blank after)
    (read : quoted (namedMember (member b) steps state) text = .ok (final, rest)) :
    ∃ m : RawMember, m.before = before ∧ m.after = after ∧ text = m.solid rest := by
  unfold quoted at read
  split at read
  · obtain ⟨⟨name, left⟩, named, made⟩ := bind_eq_ok read
    obtain ⟨spelled, rfl, reads, -⟩ := stringBody_front named
    obtain ⟨between, value, blankBetween, rfl, outline, -⟩ := settled made
    have decoded := reads spelled.length (Nat.le_refl _) []
    have outlined := outline ⟨_, _⟩ (Nat.le_refl _) (Nat.le_refl _) [] numberEnds_nil
    rw [List.append_nil] at decoded outlined
    exact ⟨⟨before, spelled, name, between, value, after, blank, blankBetween, blankToo, decoded,
      outlined⟩, rfl, rfl, rfl⟩
  · contradiction

theorem memberLoop_later_apart
    (read : memberLoop member b steps false state text = .ok (final, rest)) :
    ∃ gap ms inner, Blank gap ∧ Blank inner ∧ text = gap ++ laterMembers inner rest ms := by
  induction steps generalizing state text with
  | zero => contradiction
  | succ steps ih =>
    obtain ⟨gap, blank, split⟩ := skipBlanks_split text
    rw [memberLoop] at read
    rcases round_begins read with ⟨left, closes⟩ | ⟨begun, goes⟩
    · rw [rounds_closes closes] at read
      cases read
      rw [closes] at split
      exact ⟨gap, [], [], blank, List.forall_mem_nil _, split⟩
    · rw [rounds_goes (.inr rfl) goes] at read
      obtain ⟨⟨next, left⟩, one, more⟩ := bind_eq_ok read
      obtain ⟨after, ms, inner, blankAfter, blankInner, rfl⟩ := ih more
      cases goes with
      | @later _ mid more c comma found other =>
        obtain ⟨before, blankBefore, splitToo⟩ := skipBlanks_split mid
        obtain ⟨m, rfl, rfl, same⟩ := part_apart settled blankBefore blankAfter one
        rw [comma, splitToo, found, same] at split
        exact ⟨gap, m :: ms, inner, blank, blankInner, split⟩

theorem memberLoop_apart (read : memberLoop member b steps true state text = .ok (final, rest)) :
    ∃ ms inner, Blank inner ∧ text = objectBody inner rest ms := by
  cases steps with
  | zero => contradiction
  | succ steps =>
    obtain ⟨gap, blank, split⟩ := skipBlanks_split text
    rw [memberLoop] at read
    rcases round_begins read with ⟨left, closes⟩ | ⟨begun, goes⟩
    · rw [rounds_closes closes] at read
      cases read
      rw [closes] at split
      exact ⟨[], gap, blank, split⟩
    · rw [rounds_goes (.inr rfl) goes] at read
      obtain ⟨⟨next, left⟩, one, more⟩ := bind_eq_ok read
      obtain ⟨after, ms, inner, blankAfter, blankInner, rfl⟩ := memberLoop_later_apart settled more
      cases goes with
      | first found other =>
        obtain ⟨m, rfl, rfl, same⟩ := part_apart settled blank blankAfter one
        rw [found, same] at split
        exact ⟨m :: ms, inner, blankInner, by rw [split, objectBody_cons]⟩

end Apart

/-! ### Whole texts -/

/-- An object as it is written, with the blanks around it and before its closing bracket. -/
structure ObjectText where
  before : List Char := []
  members : List RawMember
  inner : List Char := []
  after : List Char := []
  blankBefore : Blank before := by decide
  blankInner : Blank inner := by decide
  blankAfter : Blank after := by decide

namespace ObjectText

/-- The object behind its opening bracket. -/
def opened (o : ObjectText) : List Char := objectBody o.inner o.after o.members

def text (o : ObjectText) : String := String.ofList (o.before ++ '\x7b' :: o.opened)

end ObjectText

section Records
variable {ρ : Type} {shape : Shape ρ}

theorem Shape.ofText_object_iff {text : String} {opened : List Char} {r : ρ}
    (opens : skipBlanks text.toList = '\x7b' :: opened) :
    shape.ofText text = .ok r ↔ ∃ p after,
      memberLoop shape.member ⟨text.toList.length + 1, maxNesting - 1⟩ (text.toList.length + 1) true
        { record := shape.default } opened = .ok (p, after) ∧
      shape.finish p = .ok r ∧ skipBlanks after = [] := by
  have unfolded : shape.ofText text =
      (members (shape.member ⟨text.toList.length + 1, maxNesting - 1⟩) (text.toList.length + 1) true
        { record := shape.default } opened >>= fun p => shape.finish p.1 >>= fun record =>
          .ok (record, p.2)) >>= atEnd := by
    rw [Shape.ofText, Shape.read, opens]
    rfl
  rw [unfolded, members_eq_rounds, ← memberLoop]
  constructor
  · intro accepted
    obtain ⟨⟨record, _⟩, read, ended⟩ := bind_eq_ok accepted
    obtain ⟨⟨p, after⟩, loop, later⟩ := bind_eq_ok read
    obtain ⟨_, settles, stored⟩ := bind_eq_ok later
    cases stored
    rw [atEnd] at ended
    split at ended
    · cases ended
      exact ⟨p, after, loop, settles, ‹_›⟩
    · contradiction
  · rintro ⟨p, after, loop, settles, ended⟩
    rw [loop]
    simp only [bind, Except.bind, settles, atEnd, if_pos ended]

/-- A record is what is made of the members of its object in turn. -/
theorem Shape.ofText_text_iff (settled : shape.FieldsSettled) (o : ObjectText) (r : ρ) :
    shape.ofText o.text = .ok r ↔
      ∃ p, o.members.foldlM (RawMember.taken shape.member (maxNesting - 1))
          { record := shape.default } = some p ∧ shape.finish p = .ok r := by
  have chars : o.text.toList = o.before ++ '\x7b' :: o.opened := String.toList_ofList
  have opens : skipBlanks o.text.toList = '\x7b' :: o.opened := by
    rw [chars, skipBlanks_append o.blankBefore]
    exact skipBlanks_cons rfl _
  have enough : o.opened.length ≤ o.text.toList.length + 1 := by
    simp only [chars, List.length_append, List.length_cons]
    omega
  have loop (done : Progress ρ × List Char) :
      memberLoop shape.member ⟨o.text.toList.length + 1, maxNesting - 1⟩ (o.text.toList.length + 1)
          true { record := shape.default } o.opened = .ok done ↔
        ∃ p, o.members.foldlM (RawMember.taken shape.member (maxNesting - 1))
            { record := shape.default } = some p ∧ done = (p, o.after) :=
    memberLoop_iff (shape.member_settledAt settled _) o.blankInner enough enough
  have ended : skipBlanks o.after = [] := by
    rw [← List.append_nil o.after, skipBlanks_append o.blankAfter]
    rfl
  rw [Shape.ofText_object_iff opens]
  constructor
  · rintro ⟨p, after, members, settles, -⟩
    obtain ⟨final, folded, same⟩ := (loop _).mp members
    cases same
    exact ⟨p, folded, settles⟩
  · rintro ⟨p, folded, settles⟩
    exact ⟨p, o.after, (loop _).mpr ⟨p, folded, rfl⟩, settles, ended⟩

/-- Every object that is read as a record can be taken apart into members. -/
theorem Shape.exists_objectText (settled : shape.FieldsSettled) {text : String} {r : ρ}
    (accepted : shape.ofText text = .ok r)
    (object : (skipBlanks text.toList).head? = some '\x7b') : ∃ o : ObjectText, text = o.text := by
  obtain ⟨opened, opens⟩ := List.head?_eq_some_iff.mp object
  obtain ⟨p, after, loop, -, ended⟩ := (Shape.ofText_object_iff opens).mp accepted
  obtain ⟨ms, inner, blankInner, rfl⟩ :=
    memberLoop_apart (shape.member_settledAt settled (maxNesting - 1)) loop
  obtain ⟨before, blankBefore, split⟩ := skipBlanks_split text.toList
  obtain ⟨gap, blankAfter, splitToo⟩ := skipBlanks_split after
  rw [ended, List.append_nil] at splitToo
  subst splitToo
  refine ⟨⟨before, ms, inner, after, blankBefore, blankInner, blankAfter⟩, ?_⟩
  rw [ObjectText.text, ObjectText.opened, ← opens, ← split]
  exact String.ofList_toList.symm

end Records

end SymbolAtlas.Json
