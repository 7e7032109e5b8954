import SymbolAtlas.Proofs.Json.Parts

/-! A value without floats is read back from its text, whatever follows it, as long
as the brackets inside it may be opened. Members come back in the order in which
they are written because a value that is held has them in the order of their names,
where insertion puts them. -/
namespace SymbolAtlas.Json

/-! ### Values that are held -/

/-- Names in strictly increasing order. -/
def InOrder (ms : List (String × Value)) : Prop :=
  ms.Pairwise fun a b => compare a.1 b.1 = .lt

/-- A value as it is held: its integers have 64 bits, and the members of its objects
are in the order of their names. -/
inductive Value.Valid : Value → Prop
  | null : Valid .null
  | bool (b : Bool) : Valid (.bool b)
  | integer {n : Int} (fits : IsWord64 n) : Valid (.number (.integer n))
  | float (x : Float) : Valid (.number (.float x))
  | string (s : String) : Valid (.string s)
  | array {vs : List Value} (items : ∀ v ∈ vs, v.Valid) : Valid (.array vs)
  | object {ms : List (String × Value)} (ordered : InOrder ms) (members : ∀ m ∈ ms, m.2.Valid) :
      Valid (.object ms)

/-- No number in the value is a float. -/
inductive Value.Integral : Value → Prop
  | null : Integral .null
  | bool (b : Bool) : Integral (.bool b)
  | integer (n : Int) : Integral (.number (.integer n))
  | string (s : String) : Integral (.string s)
  | array {vs : List Value} (items : ∀ v ∈ vs, v.Integral) : Integral (.array vs)
  | object {ms : List (String × Value)} (members : ∀ m ∈ ms, m.2.Integral) : Integral (.object ms)

/-! ### Brackets -/

mutual

/-- How many brackets are open at once in the text of the value, at most. -/
def Value.nesting : Value → Nat
  | .array vs => itemsNesting vs + 1
  | .object ms => membersNesting ms + 1
  | _ => 0

/-- The most brackets of any item. -/
def itemsNesting : List Value → Nat
  | [] => 0
  | v :: vs => max v.nesting (itemsNesting vs)

/-- The most brackets of any member. -/
def membersNesting : List (String × Value) → Nat
  | [] => 0
  | (_, v) :: ms => max v.nesting (membersNesting ms)

end

theorem itemsNesting_le_iff {vs : List Value} {n : Nat} :
    itemsNesting vs ≤ n ↔ ∀ v ∈ vs, v.nesting ≤ n := by
  induction vs with
  | nil => simp [itemsNesting]
  | cons v vs ih => rw [itemsNesting, Nat.max_le, ih, List.forall_mem_cons]

theorem membersNesting_le_iff {ms : List (String × Value)} {n : Nat} :
    membersNesting ms ≤ n ↔ ∀ m ∈ ms, m.2.nesting ≤ n := by
  induction ms with
  | nil => simp [membersNesting]
  | cons m ms ih => rw [membersNesting, Nat.max_le, ih, List.forall_mem_cons]

@[simp] theorem membersNesting_append (ms more : List (String × Value)) :
    membersNesting (ms ++ more) = max (membersNesting ms) (membersNesting more) := by
  induction ms with
  | nil => simp [membersNesting]
  | cons m ms ih => simp [membersNesting, ih, Nat.max_assoc]

/-! ### Lengths -/

theorem length_chars_le_moreItems {v : Value} {vs : List Value} (member : v ∈ vs) :
    v.chars.length ≤ (moreItems vs).length := by
  induction vs with
  | nil => contradiction
  | cons first vs ih =>
    rw [moreItems_cons, List.length_cons, List.length_append]
    rcases List.mem_cons.mp member with rfl | later
    · omega
    · have := ih later
      omega

theorem length_chars_le_array {v : Value} {vs : List Value} (member : v ∈ vs) :
    v.chars.length ≤ (Value.array vs).chars.length := by
  cases vs with
  | nil => contradiction
  | cons first vs =>
    rw [Value.chars, itemChars_cons]
    simp only [List.length_cons, List.length_append]
    rcases List.mem_cons.mp member with rfl | later
    · omega
    · have := length_chars_le_moreItems later
      omega

theorem length_le_moreItems (vs : List Value) : vs.length ≤ (moreItems vs).length := by
  induction vs with
  | nil => exact Nat.zero_le _
  | cons v vs ih =>
    rw [moreItems_cons, List.length_cons, List.length_cons, List.length_append]
    omega

/-- An array has at least one character for each of its items, not counting the
brackets, but for a first item without any. -/
theorem length_le_itemChars (vs : List Value) : vs.length ≤ (itemChars vs).length + 1 := by
  cases vs with
  | nil => exact Nat.zero_le _
  | cons v vs =>
    have := length_le_moreItems vs
    rw [itemChars_cons, List.length_cons, List.length_append]
    omega

theorem length_chars_le_moreMembers {m : String × Value} {ms : List (String × Value)}
    (member : m ∈ ms) : m.2.chars.length ≤ (moreMembers ms).length := by
  induction ms with
  | nil => contradiction
  | cons first ms ih =>
    rw [moreMembers_cons, memberText]
    simp only [List.length_cons, List.length_append]
    rcases List.mem_cons.mp member with rfl | later
    · omega
    · have := ih later
      omega

theorem length_chars_le_object {m : String × Value} {ms : List (String × Value)}
    (member : m ∈ ms) : m.2.chars.length ≤ (Value.object ms).chars.length := by
  cases ms with
  | nil => contradiction
  | cons first ms =>
    rw [Value.chars, memberChars_cons, memberText]
    simp only [List.length_cons, List.length_append]
    rcases List.mem_cons.mp member with rfl | later
    · omega
    · have := length_chars_le_moreMembers later
      omega

/-! ### Reading back -/

theorem startsPart_stringText (s : String) : StartsPart (stringText s) :=
  ⟨'"', _, rfl, by decide, by decide⟩

/-- The text of an integer starts with its sign or with a digit. -/
theorem signedDigits_front (n : Int) :
    ∃ c more, Decimal.signedDigits n = c :: more ∧ (c = '-' ∨ c.isDigit = true) := by
  cases n with
  | ofNat n =>
    cases front : Decimal.digits n with
    | nil => exact absurd front (Decimal.digits_ne_nil n)
    | cons c more =>
      exact ⟨c, more, front, .inr (isDigit_of_mem_digits (by rw [front]; exact List.mem_cons_self))⟩
  | negSucc n => exact ⟨'-', _, rfl, .inl rfl⟩

/-- What starts a number starts nothing else. -/
theorem ne_of_number_front {c d : Char} (front : c = '-' ∨ c.isDigit = true)
    (other : d ≠ '-' ∧ d.isDigit = false) : c ≠ d := by
  rintro rfl
  rcases front with sign | digit
  · exact other.1 sign
  · rw [other.2] at digit; contradiction

theorem not_isJsonBlank_of_number_front {c : Char} (front : c = '-' ∨ c.isDigit = true) :
    isJsonBlank c = false := by
  have differs {d : Char} := ne_of_number_front (d := d) front
  simp only [isJsonBlank, Bool.or_eq_false_iff, decide_eq_false_iff_not]
  exact ⟨⟨⟨differs (by decide), differs (by decide)⟩, differs (by decide)⟩, differs (by decide)⟩

theorem startsPart_signedDigits (n : Int) : StartsPart (Decimal.signedDigits n) := by
  obtain ⟨c, more, text, front⟩ := signedDigits_front n
  exact ⟨c, more, text, not_isJsonBlank_of_number_front front,
    ne_of_number_front front (by decide)⟩

theorem startsPart_chars {v : Value} (integral : v.Integral) : StartsPart v.chars := by
  cases integral with
  | null => exact ⟨'n', _, rfl, by decide, by decide⟩
  | bool b =>
    cases b with
    | true => exact ⟨'t', _, rfl, by decide, by decide⟩
    | false => exact ⟨'f', _, rfl, by decide, by decide⟩
  | integer n => exact startsPart_signedDigits n
  | string s => exact startsPart_stringText s
  | array => exact ⟨'[', _, rfl, by decide, by decide⟩
  | object => exact ⟨'\x7b', _, rfl, by decide, by decide⟩

theorem valueWith_number {c : Char} (front : c = '-' ∨ c.isDigit = true) (steps : Nat)
    (inner : Option (Reader Value)) (rest : List Char) :
    valueWith steps inner (c :: rest) =
      (number (c :: rest)).bind fun n => .ok (.number n.1, n.2) := by
  rw [valueWith, skipBlanks_cons (not_isJsonBlank_of_number_front front)]
  split
  · contradiction
  · exact absurd (List.cons.inj ‹_›).1 (ne_of_number_front front (by decide))
  · exact absurd (List.cons.inj ‹_›).1 (ne_of_number_front front (by decide))
  · exact absurd (List.cons.inj ‹_›).1 (ne_of_number_front front (by decide))
  · exact absurd (List.cons.inj ‹_›).1 (ne_of_number_front front (by decide))
  · exact absurd (List.cons.inj ‹_›).1 (ne_of_number_front front (by decide))
  · exact absurd (List.cons.inj ‹_›).1 (ne_of_number_front front (by decide))
  · rename_i same
    obtain ⟨rfl, rfl⟩ := List.cons.inj same
    rw [if_pos front]
    rfl

/-- A member that comes after all others is put at the end. -/
theorem insertMember_last {name : String} {held : List (String × Value)}
    (last : ∀ m ∈ held, compare m.1 name = .lt) (v : Value) :
    insertMember name v held = held ++ [(name, v)] := by
  induction held with
  | nil => rfl
  | cons m held ih =>
    have later : compare name m.1 = .gt :=
      Std.OrientedCmp.gt_iff_lt.mpr (last m List.mem_cons_self)
    have rest := ih fun other member => last other (List.mem_cons_of_mem _ member)
    simp only [insertMember, later, rest, List.cons_append]

/-- Reads a member after its name and puts it in its place. -/
def keep (inner : Reader Value) (held : List (String × Value)) (name : String) :
    Reader (List (String × Value)) := fun text => do
  let text ← colon text
  let (v, rest) ← inner text
  .ok (insertMember name v held, rest)

/-- Members in the order of their names stay in it when they are put in their places. -/
theorem absorbs_keep {inner : Reader Value} {held ms : List (String × Value)}
    (back : ∀ m ∈ ms, ReadsBack inner m.2.chars m.2) (ordered : InOrder (held ++ ms)) :
    Absorbs (keep inner) held ms (held ++ ms) := by
  induction ms generalizing held with
  | nil => rw [List.append_nil]; exact .none held
  | cons m ms ih =>
    have last : ∀ other ∈ held, compare other.1 m.1 = .lt := fun other member =>
      (List.pairwise_append.mp ordered).2.2 other member m List.mem_cons_self
    have again : (held ++ [m]) ++ ms = held ++ m :: ms := List.append_cons .. |>.symm
    have put : ∀ rest, NumberEnds rest →
        keep inner held m.1 (':' :: (m.2.chars ++ rest)) = .ok (held ++ [m], rest) := by
      intro rest ends
      have colon : colon (':' :: (m.2.chars ++ rest)) = .ok (m.2.chars ++ rest) := rfl
      simp only [keep, colon, (back m List.mem_cons_self).reads rest ends,
        insertMember_last last, bind, Except.bind]
    rw [← again]
    exact .next put
      (ih (fun other member => back other (List.mem_cons_of_mem _ member)) (again ▸ ordered))

theorem value_signedDigits {n : Int} (fits : IsWord64 n) (steps nesting : Nat) {rest : List Char}
    (ends : NumberEnds rest) :
    value steps nesting (Decimal.signedDigits n ++ rest) = .ok (.number (.integer n), rest) := by
  have read := number_signedDigits fits ends
  obtain ⟨c, more, text, front⟩ := signedDigits_front n
  rw [text, List.cons_append] at read ⊢
  cases nesting <;> rw [value, valueWith_number front, read] <;> rfl

theorem value_stringText (s : String) {steps : Nat} (enough : (stringText s).length ≤ steps)
    (nesting : Nat) (rest : List Char) :
    value steps nesting (stringText s ++ rest) = .ok (.string s, rest) := by
  obtain ⟨body, text, read⟩ := stringBody_text s rest enough
  have unfolded : value steps nesting ('"' :: (body ++ rest)) =
      (stringBody steps [] (body ++ rest)).bind fun s => .ok (.string s.1, s.2) := by
    cases nesting <;> rfl
  rw [text, List.cons_append, unfolded, read]
  rfl

/-- An array is read back if its items are. -/
theorem value_array {vs : List Value} {steps nesting : Nat}
    (back : ∀ v ∈ vs, ReadsBack (value steps nesting) v.chars v)
    (enough : (Value.array vs).chars.length ≤ steps) (rest : List Char) :
    value steps (nesting + 1) ((Value.array vs).chars ++ rest) = .ok (.array vs, rest) := by
  rw [Value.chars, List.length_cons, List.length_append, List.length_singleton] at enough
  have fewer := length_le_itemChars vs
  have read : items (gather (value steps nesting)) steps true []
      (itemChars (vs.map id) ++ ']' :: rest) = .ok (vs.reverse, rest) :=
    items_gather back (by omega) rest
  have unfolded : value steps (nesting + 1) ('[' :: (itemChars vs ++ ']' :: rest)) =
      (items (gather (value steps nesting)) steps true [] (itemChars vs ++ ']' :: rest)).bind
        fun done => .ok (.array done.1.reverse, done.2) := rfl
  rw [List.map_id] at read
  rw [Value.chars, List.cons_append, List.append_assoc, List.singleton_append, unfolded, read]
  simp only [Except.bind, List.reverse_reverse]

/-- An object is read back if the values of its members are. -/
theorem value_object {ms : List (String × Value)} (ordered : InOrder ms) {steps nesting : Nat}
    (back : ∀ m ∈ ms, ReadsBack (value steps nesting) m.2.chars m.2)
    (enough : (Value.object ms).chars.length ≤ steps) (rest : List Char) :
    value steps (nesting + 1) ((Value.object ms).chars ++ rest) = .ok (.object ms, rest) := by
  rw [Value.chars, List.length_cons, List.length_append, List.length_singleton] at enough
  have absorbs : Absorbs (keep (value steps nesting)) [] ms ms := absorbs_keep back ordered
  have fits : (memberChars ms).length < steps := by omega
  have unfolded : value steps (nesting + 1) ('\x7b' :: (memberChars ms ++ '\x7d' :: rest)) =
      (members (keep (value steps nesting)) steps true [] (memberChars ms ++ '\x7d' :: rest)).bind
        fun done => .ok (.object done.1, done.2) := rfl
  rw [Value.chars, List.cons_append, List.append_assoc, List.singleton_append, unfolded,
    absorbs.members fits rest]
  rfl

/-- A value that is held is read back from its text. -/
theorem value_readsBack {v : Value} (valid : v.Valid) (integral : v.Integral) {steps nesting : Nat}
    (opens : v.nesting ≤ nesting) (enough : v.chars.length ≤ steps) :
    ReadsBack (value steps nesting) v.chars v := by
  refine ⟨startsPart_chars integral, ?_⟩
  -- The steps stay the same all the way in; only the brackets become fewer.
  induction valid generalizing nesting with
  | null => intro rest _; cases nesting <;> rfl
  | bool b => intro rest _; cases nesting <;> cases b <;> rfl
  | integer fits => exact fun rest => value_signedDigits fits steps nesting
  | float => cases integral
  | string s => exact fun rest _ => value_stringText s enough nesting rest
  | @array vs valid ih =>
    rw [Value.nesting] at opens
    obtain ⟨nesting, rfl⟩ := Nat.exists_eq_succ_of_ne_zero (Nat.ne_zero_of_lt opens)
    rw [Nat.succ_le_succ_iff, itemsNesting_le_iff] at opens
    have integral : ∀ v ∈ vs, v.Integral := by cases integral; assumption
    have shorter : ∀ v ∈ vs, v.chars.length ≤ steps := fun v member =>
      Nat.le_trans (length_chars_le_array member) enough
    exact fun rest _ => value_array (fun v member => ⟨startsPart_chars (integral v member),
      ih v member (integral v member) (opens v member) (shorter v member)⟩) enough rest
  | @object ms ordered valid ih =>
    rw [Value.nesting] at opens
    obtain ⟨nesting, rfl⟩ := Nat.exists_eq_succ_of_ne_zero (Nat.ne_zero_of_lt opens)
    rw [Nat.succ_le_succ_iff, membersNesting_le_iff] at opens
    have integral : ∀ m ∈ ms, m.2.Integral := by cases integral; assumption
    have shorter : ∀ m ∈ ms, m.2.chars.length ≤ steps := fun m member =>
      Nat.le_trans (length_chars_le_object member) enough
    exact fun rest _ => value_object ordered (fun m member => ⟨startsPart_chars (integral m member),
      ih m member (integral m member) (opens m member) (shorter m member)⟩) enough rest

end SymbolAtlas.Json
