import SymbolAtlas.Proofs.Json.Lexemes

/-! The loop over the parts of an array and the loop over the members of an object
read what is written between the brackets, one part in each step. What is done with
a part is left open: values, lists of records and the fields of a record all go
through these loops. -/
namespace SymbolAtlas.Json

/-! ### Between parts -/

theorem skipBlanks_cons {c : Char} (solid : isJsonBlank c = false) (rest : List Char) :
    skipBlanks (c :: rest) = c :: rest := by
  rw [skipBlanks, List.dropWhile_cons_of_neg (by simp [solid])]

theorem numberEnds_cons {c : Char} (stops : c.isDigit = false ∧ c ≠ '.' ∧ c ≠ 'e' ∧ c ≠ 'E')
    (rest : List Char) : NumberEnds (c :: rest) := by
  intro d front
  cases front
  exact stops

theorem numberEnds_nil : NumberEnds [] := fun _ front => nomatch front

/-- What a part of an array can start with. -/
def StartsPart (text : List Char) : Prop :=
  ∃ c more, text = c :: more ∧ isJsonBlank c = false ∧ c ≠ ']'

theorem StartsPart.append {text : List Char} (starts : StartsPart text) (rest : List Char) :
    StartsPart (text ++ rest) := by
  obtain ⟨c, more, rfl, solid, opened⟩ := starts
  exact ⟨c, more ++ rest, rfl, solid, opened⟩

theorem StartsPart.skipBlanks {text : List Char} (starts : StartsPart text) :
    skipBlanks text = text := by
  obtain ⟨c, more, rfl, solid, _⟩ := starts
  exact skipBlanks_cons solid more

/-- A reader takes exactly `text` off the front and finds `a` in it. -/
structure ReadsBack {α : Type} (read : Reader α) (text : List Char) (a : α) : Prop where
  starts : StartsPart text
  reads : ∀ rest, NumberEnds rest → read (text ++ rest) = .ok (a, rest)

/-! ### Arrays -/

/-- The parts of an array after the first one. -/
def moreItems (vs : List Value) : List Char := vs.flatMap fun v => ',' :: v.chars

theorem moreItems_cons (v : Value) (vs : List Value) :
    moreItems (v :: vs) = ',' :: (v.chars ++ moreItems vs) := by
  rw [moreItems, List.flatMap_cons, List.cons_append, ← moreItems]

theorem itemChars_cons (v : Value) (vs : List Value) :
    itemChars (v :: vs) = v.chars ++ moreItems vs := by
  induction vs generalizing v with
  | nil => rw [itemChars, moreItems, List.flatMap_nil, List.append_nil]
  | cons second vs ih => rw [itemChars, ih, moreItems_cons]

theorem numberEnds_moreItems (vs : List Value) (rest : List Char) :
    NumberEnds (moreItems vs ++ ']' :: rest) := by
  cases vs with
  | nil => exact numberEnds_cons (by decide) _
  | cons => exact numberEnds_cons (by decide) _

section Items
variable {σ : Type} {item : σ → Reader σ}

theorem items_first {text : List Char} (starts : StartsPart text) (steps : Nat) (state : σ) :
    items item (steps + 1) true state text =
      (item state text).bind fun next => items item steps false next.1 next.2 := by
  obtain ⟨c, more, rfl, solid, opened⟩ := starts
  rw [items, skipBlanks_cons solid]
  split
  · contradiction
  · rename_i closed
    exact absurd (List.cons.inj closed).1 opened
  · rename_i same
    obtain ⟨rfl, rfl⟩ := List.cons.inj same
    rfl

theorem items_next {text : List Char} (starts : StartsPart text) (steps : Nat) (state : σ) :
    items item (steps + 1) false state (',' :: text) =
      (item state text).bind fun next => items item steps false next.1 next.2 := by
  have next := starts.skipBlanks
  obtain ⟨c, more, rfl, solid, opened⟩ := starts
  rw [items, skipBlanks_cons rfl]
  split
  · contradiction
  · rename_i closed
    exact absurd (List.cons.inj closed).1 (by decide)
  rename_i same
  obtain ⟨rfl, rfl⟩ := List.cons.inj same
  rw [if_neg Bool.false_ne_true, if_pos rfl, next]
  split
  · contradiction
  · rename_i closed
    exact absurd (List.cons.inj closed).1 opened
  · rfl

end Items

section Gather
variable {α : Type} {read : Reader α} {shown : α → Value}

/-- Reads a part and puts it in front of those that came before. -/
def gather (read : Reader α) (done : List α) : Reader (List α) := fun text => do
  let (a, rest) ← read text
  .ok (a :: done, rest)

theorem items_gather_next {as : List α} (back : ∀ a ∈ as, ReadsBack read (shown a).chars a)
    {steps : Nat} (enough : as.length < steps) (done : List α) (rest : List Char) :
    items (gather read) steps false done (moreItems (as.map shown) ++ ']' :: rest) =
      .ok (as.reverse ++ done, rest) := by
  induction as generalizing steps done with
  | nil =>
    obtain ⟨steps, rfl⟩ := Nat.exists_eq_succ_of_ne_zero (Nat.ne_zero_of_lt enough)
    rfl
  | cons a as ih =>
    obtain ⟨steps, rfl⟩ := Nat.exists_eq_succ_of_ne_zero (Nat.ne_zero_of_lt enough)
    have here := back a List.mem_cons_self
    rw [List.map_cons, moreItems_cons, List.cons_append, List.append_assoc,
      items_next (here.starts.append _), gather, here.reads _ (numberEnds_moreItems _ _)]
    have more := ih (fun b member => back b (List.mem_cons_of_mem _ member))
      (Nat.lt_of_succ_lt_succ enough) (a :: done)
    rw [List.reverse_cons, List.append_assoc]
    exact more

/-- The parts of an array are gathered in the order in which they are written,
latest first. -/
theorem items_gather {as : List α} (back : ∀ a ∈ as, ReadsBack read (shown a).chars a)
    {steps : Nat} (enough : as.length < steps) (rest : List Char) :
    items (gather read) steps true [] (itemChars (as.map shown) ++ ']' :: rest) =
      .ok (as.reverse, rest) := by
  obtain ⟨steps, rfl⟩ := Nat.exists_eq_succ_of_ne_zero (Nat.ne_zero_of_lt enough)
  cases as with
  | nil => rfl
  | cons a as =>
    have here := back a List.mem_cons_self
    rw [List.map_cons, itemChars_cons, List.append_assoc, items_first (here.starts.append _),
      gather, here.reads _ (numberEnds_moreItems _ _), List.reverse_cons]
    exact items_gather_next (fun b member => back b (List.mem_cons_of_mem _ member))
      (Nat.lt_of_succ_lt_succ enough) [a] rest

end Gather

/-! ### Objects -/

/-- A member as it is written. -/
def memberText (m : String × Value) : List Char := stringText m.1 ++ ':' :: m.2.chars

/-- The members of an object after the first one. -/
def moreMembers (ms : List (String × Value)) : List Char := ms.flatMap fun m => ',' :: memberText m

theorem moreMembers_cons (m : String × Value) (ms : List (String × Value)) :
    moreMembers (m :: ms) = ',' :: (memberText m ++ moreMembers ms) := by
  rw [moreMembers, List.flatMap_cons, List.cons_append, ← moreMembers]

theorem memberChars_cons (m : String × Value) (ms : List (String × Value)) :
    memberChars (m :: ms) = memberText m ++ moreMembers ms := by
  induction ms generalizing m with
  | nil => simp [memberChars, memberText, moreMembers]
  | cons second ms ih => simp [memberChars, memberText, ih, moreMembers_cons]

theorem numberEnds_moreMembers (ms : List (String × Value)) (rest : List Char) :
    NumberEnds (moreMembers ms ++ '\x7d' :: rest) := by
  cases ms with
  | nil => exact numberEnds_cons (by decide) _
  | cons => exact numberEnds_cons (by decide) _

section Members
variable {σ : Type} {member : σ → String → Reader σ}

theorem members_first {name : String} {steps : Nat} (enough : (stringText name).length ≤ steps + 1)
    (state : σ) (rest : List Char) :
    members member (steps + 1) true state (stringText name ++ rest) =
      (member state name rest).bind fun next => members member steps false next.1 next.2 := by
  obtain ⟨body, text, read⟩ := stringBody_text name rest enough
  have named : members member (steps + 1) true state ('"' :: (body ++ rest)) =
      (stringBody (steps + 1) [] (body ++ rest)).bind fun name =>
        (member state name.1 name.2).bind fun next =>
          members member steps false next.1 next.2 := rfl
  rw [text, List.cons_append, named, read]
  rfl

theorem members_next {name : String} {steps : Nat} (enough : (stringText name).length ≤ steps + 1)
    (state : σ) (rest : List Char) :
    members member (steps + 1) false state (',' :: (stringText name ++ rest)) =
      (member state name rest).bind fun next => members member steps false next.1 next.2 := by
  obtain ⟨body, text, read⟩ := stringBody_text name rest enough
  have named : members member (steps + 1) false state (',' :: '"' :: (body ++ rest)) =
      (stringBody (steps + 1) [] (body ++ rest)).bind fun name =>
        (member state name.1 name.2).bind fun next =>
          members member steps false next.1 next.2 := rfl
  rw [text, List.cons_append, named, read]
  rfl

/-- Member after member, the state moves on by exactly what is written. -/
inductive Absorbs (member : σ → String → Reader σ) : σ → List (String × Value) → σ → Prop
  | none (state : σ) : Absorbs member state [] state
  | next {before middle after : σ} {m : String × Value} {ms : List (String × Value)}
      (reads : ∀ rest, NumberEnds rest →
        member before m.1 (':' :: (m.2.chars ++ rest)) = .ok (middle, rest))
      (more : Absorbs member middle ms after) : Absorbs member before (m :: ms) after

theorem Absorbs.append {before middle after : σ} {ms more : List (String × Value)}
    (first : Absorbs member before ms middle) (second : Absorbs member middle more after) :
    Absorbs member before (ms ++ more) after := by
  induction first with
  | none => exact second
  | next reads _ ih => exact .next reads (ih second)

theorem Absorbs.members_next {before after : σ} {ms : List (String × Value)}
    (absorbs : Absorbs member before ms after) {steps : Nat}
    (enough : (moreMembers ms).length < steps) (rest : List Char) :
    members member steps false before (moreMembers ms ++ '\x7d' :: rest) = .ok (after, rest) := by
  induction absorbs generalizing steps with
  | none =>
    obtain ⟨steps, rfl⟩ := Nat.exists_eq_succ_of_ne_zero (Nat.ne_zero_of_lt enough)
    rfl
  | @next before middle after m ms reads _ ih =>
    obtain ⟨steps, rfl⟩ := Nat.exists_eq_succ_of_ne_zero (Nat.ne_zero_of_lt enough)
    rw [moreMembers_cons, memberText] at enough ⊢
    simp only [List.length_append, List.length_cons] at enough
    simp only [List.cons_append, List.append_assoc]
    rw [Json.members_next (by omega), reads _ (numberEnds_moreMembers ms rest)]
    exact ih (by omega)

/-- All members of an object are taken in. -/
theorem Absorbs.members {before after : σ} {ms : List (String × Value)}
    (absorbs : Absorbs member before ms after) {steps : Nat}
    (enough : (memberChars ms).length < steps) (rest : List Char) :
    members member steps true before (memberChars ms ++ '\x7d' :: rest) = .ok (after, rest) := by
  obtain ⟨steps, rfl⟩ := Nat.exists_eq_succ_of_ne_zero (Nat.ne_zero_of_lt enough)
  cases absorbs with
  | none => rfl
  | @next before middle after m ms reads more =>
    rw [memberChars_cons, memberText] at enough ⊢
    simp only [List.length_append, List.length_cons] at enough
    simp only [List.cons_append, List.append_assoc]
    rw [members_first (by omega), reads _ (numberEnds_moreMembers ms rest)]
    exact more.members_next (by omega) rest

end Members

end SymbolAtlas.Json
