import SymbolAtlas.Proofs.Json.Values

/-! How deep the brackets of a text are nested is a question about its characters
alone, except that a bracket inside a string is none. For the text of a value it is
the depth of the value. -/
namespace SymbolAtlas.Json

/-! ### Counting -/

/-- Where a character of a text stands. -/
inductive Place where
  | outside
  /-- Inside a string. -/
  | quoted
  /-- Inside a string, right after a backslash. -/
  | escaped
  deriving DecidableEq, Repr

/-- The most brackets that are open at once from here to the end of the text, where
`depth` of them are open already. -/
def deepestFrom : Place → Nat → List Char → Nat
  | _, depth, [] => depth
  | .outside, depth, c :: rest =>
    if c = '"' then deepestFrom .quoted depth rest
    else if c = '[' ∨ c = '\x7b' then deepestFrom .outside (depth + 1) rest
    else if c = ']' ∨ c = '\x7d' then max depth (deepestFrom .outside (depth - 1) rest)
    else deepestFrom .outside depth rest
  | .quoted, depth, c :: rest =>
    if c = '"' then deepestFrom .outside depth rest
    else if c = '\\' then deepestFrom .escaped depth rest
    else deepestFrom .quoted depth rest
  | .escaped, depth, _ :: rest => deepestFrom .quoted depth rest

/-- The most brackets that are open at once in a text. -/
def deepest (text : String) : Nat := deepestFrom .outside 0 text.toList

theorem le_deepestFrom (place : Place) (depth : Nat) (text : List Char) :
    depth ≤ deepestFrom place depth text := by
  induction text generalizing place depth with
  | nil => cases place <;> exact Nat.le_refl _
  | cons c rest ih =>
    cases place with
    | outside =>
      unfold deepestFrom
      split
      · exact ih ..
      split
      · exact Nat.le_trans (Nat.le_succ _) (ih ..)
      split
      · exact Nat.le_max_left ..
      · exact ih ..
    | quoted =>
      unfold deepestFrom
      split
      · exact ih ..
      split
      · exact ih ..
      · exact ih ..
    | escaped => exact ih ..

/-! ### Texts without brackets -/

/-- A character that is neither a bracket nor a quote. -/
def IsPlain (c : Char) : Prop := c ≠ '"' ∧ c ≠ '[' ∧ c ≠ ']' ∧ c ≠ '\x7b' ∧ c ≠ '\x7d'

instance (c : Char) : Decidable (IsPlain c) := inferInstanceAs (Decidable (_ ∧ _))

theorem deepestFrom_plain {text : List Char} (plain : ∀ c ∈ text, IsPlain c) (depth : Nat)
    (rest : List Char) :
    deepestFrom .outside depth (text ++ rest) = deepestFrom .outside depth rest := by
  induction text with
  | nil => rfl
  | cons c text ih =>
    obtain ⟨quote, opens, closes, opens', closes'⟩ := plain c List.mem_cons_self
    rw [List.cons_append, deepestFrom, if_neg quote, if_neg (not_or.mpr ⟨opens, opens'⟩),
      if_neg (not_or.mpr ⟨closes, closes'⟩)]
    exact ih fun d member => plain d (List.mem_cons_of_mem _ member)

theorem isPlain_of_isDigit {c : Char} (digit : c.isDigit = true) : IsPlain c := by
  refine ⟨?_, ?_, ?_, ?_, ?_⟩ <;> rintro rfl <;> contradiction

theorem isPlain_of_mem_digits {n : Nat} {c : Char} (member : c ∈ Decimal.digits n) : IsPlain c :=
  isPlain_of_isDigit (isDigit_of_mem_digits member)

theorem isPlain_of_mem_signedDigits {n : Int} {c : Char} (member : c ∈ Decimal.signedDigits n) :
    IsPlain c := by
  cases n with
  | ofNat n => exact isPlain_of_mem_digits member
  | negSucc n =>
    rcases List.mem_cons.mp member with rfl | member
    · decide
    · exact isPlain_of_mem_digits member

theorem isPlain_of_mem_positional {digits : List Char} (plain : ∀ c ∈ digits, IsPlain c)
    (whole : Int) : ∀ c ∈ positional digits whole, IsPlain c := by
  have zeros {n : Nat} : ∀ c ∈ List.replicate n '0', IsPlain c := fun c member => by
    rw [List.eq_of_mem_replicate member]; decide
  have point : IsPlain '.' := by decide
  have zero : IsPlain '0' := by decide
  unfold positional
  split
  · simp only [List.forall_mem_cons, List.forall_mem_append]
    exact ⟨zero, point, zeros, plain⟩
  split
  · simp only [List.forall_mem_cons, List.forall_mem_append]
    exact ⟨⟨plain, zeros⟩, point, zero, List.forall_mem_nil _⟩
  · simp only [List.forall_mem_cons, List.forall_mem_append]
    exact ⟨fun c member => plain c (List.mem_of_mem_take member), point,
      fun c member => plain c (List.mem_of_mem_drop member)⟩

theorem isPlain_of_mem_scientific {digits : List Char} (plain : ∀ c ∈ digits, IsPlain c)
    (power : Int) : ∀ c ∈ scientific digits power, IsPlain c := by
  have sign : IsPlain (if power < 0 then '-' else '+') := by split <;> decide
  have mark : IsPlain 'e' := by decide
  have point : IsPlain '.' := by decide
  unfold scientific
  simp only [List.forall_mem_cons, List.forall_mem_append]
  refine ⟨?_, mark, sign, fun c => isPlain_of_mem_digits⟩
  split
  · exact List.forall_mem_nil _
  · exact plain
  · simp only [List.forall_mem_cons] at plain ⊢
    exact ⟨plain.1, point, plain.2⟩

theorem isPlain_of_mem_floatText (x : Float) : ∀ c ∈ floatText x, IsPlain c := by
  have minus : IsPlain '-' := by decide
  have zero : ∀ c ∈ ['0', '.', '0'], IsPlain c := by
    simp only [List.forall_mem_cons]
    exact ⟨by decide, by decide, by decide, List.forall_mem_nil _⟩
  unfold floatText
  dsimp only
  split <;> split
  · exact List.forall_mem_cons.mpr ⟨minus, zero⟩
  · refine List.forall_mem_cons.mpr ⟨minus, ?_⟩
    split
    · exact isPlain_of_mem_positional (fun c => isPlain_of_mem_digits) _
    · exact isPlain_of_mem_scientific (fun c => isPlain_of_mem_digits) _
  · exact zero
  · split
    · exact isPlain_of_mem_positional (fun c => isPlain_of_mem_digits) _
    · exact isPlain_of_mem_scientific (fun c => isPlain_of_mem_digits) _

theorem isPlain_of_mem_numberText (n : Number) : ∀ c ∈ n.text, IsPlain c := by
  cases n with
  | integer n => exact fun c => isPlain_of_mem_signedDigits
  | float x => exact isPlain_of_mem_floatText x

/-! ### Strings -/

theorem digitChar_stays_quoted : ∀ d < 16, Nat.digitChar d ≠ '"' ∧ Nat.digitChar d ≠ '\\' := by
  decide

theorem deepestFrom_escapedChar (c : Char) (depth : Nat) (rest : List Char) :
    deepestFrom .quoted depth (escapedChar c ++ rest) = deepestFrom .quoted depth rest := by
  unfold escapedChar
  split
  · rfl
  rename_i unmarked
  rw [not_or] at unmarked
  split
  · rfl
  split
  · rfl
  split
  · rfl
  split
  · rfl
  split
  · rfl
  split
  · have high := digitChar_stays_quoted (c.toNat / 16) (by omega)
    have low := digitChar_stays_quoted (c.toNat % 16) (by omega)
    simp [deepestFrom, high, low]
  · simp [deepestFrom, unmarked]

/-- Brackets in a string are not counted. -/
theorem deepestFrom_stringText (s : String) (depth : Nat) (rest : List Char) :
    deepestFrom .outside depth (stringText s ++ rest) = deepestFrom .outside depth rest := by
  have body (chars : List Char) :
      deepestFrom .quoted depth (chars.flatMap escapedChar ++ '"' :: rest) =
        deepestFrom .outside depth rest := by
    induction chars with
    | nil => rfl
    | cons c chars ih => rw [List.flatMap_cons, List.append_assoc, deepestFrom_escapedChar, ih]
  rw [stringText, List.cons_append, List.append_assoc, List.singleton_append]
  exact body s.toList

/-! ### Values -/

theorem deepestFrom_open {opening : Char} (opens : opening = '[' ∨ opening = '\x7b') (depth : Nat)
    (rest : List Char) :
    deepestFrom .outside depth (opening :: rest) = deepestFrom .outside (depth + 1) rest := by
  rcases opens with rfl | rfl <;> rfl

theorem deepestFrom_close {closing : Char} (closes : closing = ']' ∨ closing = '\x7d') (depth : Nat)
    (rest : List Char) :
    deepestFrom .outside (depth + 1) (closing :: rest) =
      max (depth + 1) (deepestFrom .outside depth rest) := by
  rcases closes with rfl | rfl <;> rfl

theorem deepestFrom_mark {mark : Char} (plain : IsPlain mark) (depth : Nat) (rest : List Char) :
    deepestFrom .outside depth (mark :: rest) = deepestFrom .outside depth rest := by
  have plain : ∀ c ∈ [mark], IsPlain c := List.forall_mem_singleton.mpr plain
  exact deepestFrom_plain plain depth rest

mutual

/-- After the text of a value the count goes on where it stood before. -/
theorem deepestFrom_chars (v : Value) (depth : Nat) (rest : List Char) :
    deepestFrom .outside depth (v.chars ++ rest) =
      max (depth + v.nesting) (deepestFrom .outside depth rest) := by
  have least := le_deepestFrom .outside depth rest
  cases v with
  | null => exact (Nat.max_eq_right least).symm
  | bool b => cases b <;> exact (Nat.max_eq_right least).symm
  | number n =>
    rw [Value.chars, deepestFrom_plain (isPlain_of_mem_numberText n)]
    exact (Nat.max_eq_right least).symm
  | string s =>
    rw [Value.chars, deepestFrom_stringText]
    exact (Nat.max_eq_right least).symm
  | array vs =>
    rw [Value.chars, List.cons_append, List.append_assoc, List.singleton_append,
      deepestFrom_open (.inl rfl), deepestFrom_itemChars, deepestFrom_close (.inl rfl),
      Value.nesting]
    omega
  | object ms =>
    rw [Value.chars, List.cons_append, List.append_assoc, List.singleton_append,
      deepestFrom_open (.inr rfl), deepestFrom_memberChars, deepestFrom_close (.inr rfl),
      Value.nesting]
    omega

/-- So it does after the items of an array. -/
theorem deepestFrom_itemChars (vs : List Value) (depth : Nat) (rest : List Char) :
    deepestFrom .outside depth (itemChars vs ++ rest) =
      max (depth + itemsNesting vs) (deepestFrom .outside depth rest) := by
  match vs with
  | [] => exact (Nat.max_eq_right (le_deepestFrom .outside depth rest)).symm
  | [only] =>
    rw [itemChars, deepestFrom_chars, itemsNesting, itemsNesting, Nat.max_zero]
  | first :: second :: more =>
    have deepest : itemsNesting (first :: second :: more) =
        max first.nesting (itemsNesting (second :: more)) := rfl
    rw [itemChars, List.append_assoc, List.cons_append, deepestFrom_chars,
      deepestFrom_mark (by decide), deepestFrom_itemChars, deepest]
    omega

/-- So it does after the members of an object. -/
theorem deepestFrom_memberChars (ms : List (String × Value)) (depth : Nat) (rest : List Char) :
    deepestFrom .outside depth (memberChars ms ++ rest) =
      max (depth + membersNesting ms) (deepestFrom .outside depth rest) := by
  match ms with
  | [] => exact (Nat.max_eq_right (le_deepestFrom .outside depth rest)).symm
  | [(name, v)] =>
    rw [memberChars, List.append_assoc, List.cons_append, deepestFrom_stringText,
      deepestFrom_mark (by decide), deepestFrom_chars, membersNesting, membersNesting,
      Nat.max_zero]
  | (name, v) :: second :: more =>
    have deepest : membersNesting ((name, v) :: second :: more) =
        max v.nesting (membersNesting (second :: more)) := rfl
    rw [memberChars, List.append_assoc, List.cons_append, List.append_assoc, List.cons_append,
      deepestFrom_stringText, deepestFrom_mark (by decide), deepestFrom_chars,
      deepestFrom_mark (by decide), deepestFrom_memberChars, deepest]
    omega

end

/-- The text of a value nests its brackets as deep as the value does. -/
theorem deepest_text (v : Value) : deepest v.text = v.nesting := by
  have counted := deepestFrom_chars v 0 []
  rw [List.append_nil] at counted
  rw [deepest, Value.text, String.toList_ofList, counted]
  simp [deepestFrom]

end SymbolAtlas.Json
