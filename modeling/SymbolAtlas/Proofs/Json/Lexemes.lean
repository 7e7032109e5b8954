import Mathlib.Data.List.TakeWhile
import SymbolAtlas.Json.Reader

/-! Strings and integers are read back from their texts, whatever follows them. Every
character of a string is read in one step of its own, escaped or not; an integer is
read in one piece as long as nothing follows that could go on with it. The other way
round, no integer is read that 64 bits cannot hold. -/
namespace SymbolAtlas.Json

/-! ### Strings -/

theorem hexValue?_digitChar : ∀ d < 16, hexValue? (Nat.digitChar d) = some d := by decide

/-- Every character takes at least one byte. -/
theorem length_le_length_encode (text : List Char) : text.length ≤ (Utf8.encode text).length := by
  induction text with
  | nil => exact Nat.zero_le _
  | cons c rest ih =>
    have some : 0 < (String.utf8EncodeChar c).length :=
      List.length_pos_iff.mpr String.utf8EncodeChar_ne_nil
    rw [Utf8.encode, List.flatMap_cons, List.length_append, List.length_cons, ← Utf8.encode]
    omega

/-- A control is read back from the number that it is spelled with. -/
theorem escape_control {c : Char} (control : c.toNat < 0x20) (rest : List Char) :
    escape ('u' :: '0' :: '0' :: Nat.digitChar (c.toNat / 16) :: Nat.digitChar (c.toNat % 16) ::
      rest) = .ok (c, rest) := by
  have high := hexValue?_digitChar (c.toNat / 16) (by omega)
  have low := hexValue?_digitChar (c.toNat % 16) (by omega)
  have zero : hexValue? '0' = some 0 := rfl
  have number : ((0 * 16 + 0) * 16 + c.toNat / 16) * 16 + c.toNat % 16 = c.toNat := by omega
  have four : fourHex ('0' :: '0' :: Nat.digitChar (c.toNat / 16) ::
      Nat.digitChar (c.toNat % 16) :: rest) = .ok (c.toNat, rest) := by
    have long : ¬ (Utf8.encode (List.take 4 ('0' :: '0' :: Nat.digitChar (c.toNat / 16) ::
        Nat.digitChar (c.toNat % 16) :: rest))).length < 4 :=
      Nat.not_lt.mpr (length_le_length_encode
        ['0', '0', Nat.digitChar (c.toNat / 16), Nat.digitChar (c.toNat % 16)])
    rw [fourHex, if_neg long]
    simp only [zero, high, low, number]
  have below : ¬ (0xDC00 ≤ c.toNat ∧ c.toNat ≤ 0xDFFF) := by omega
  have plain : c.toNat < 0xD800 ∨ 0xDBFF < c.toNat := by omega
  unfold escape
  simp only [four, bind, Except.bind, if_neg below, if_pos plain, Char.ofNat_toNat]

/-- Each character is read in one step, however it is written. -/
theorem stringBody_escapedChar (c : Char) (steps : Nat) (done rest : List Char) :
    stringBody (steps + 1) done (escapedChar c ++ rest) = stringBody steps (c :: done) rest := by
  unfold escapedChar
  split
  · rename_i marked
    rcases marked with rfl | rfl <;> rfl
  rename_i unmarked
  rw [not_or] at unmarked
  split
  · subst c; rfl
  split
  · subst c; rfl
  split
  · subst c; rfl
  split
  · subst c; rfl
  split
  · subst c; rfl
  split
  · rename_i control
    simp only [List.cons_append, List.nil_append, stringBody, escape_control control, bind,
      Except.bind]
    rfl
  · rename_i printed
    rw [List.singleton_append, stringBody, if_neg unmarked.1, if_neg unmarked.2, if_neg printed]

theorem stringBody_escaped (chars done rest : List Char) {steps : Nat}
    (enough : chars.length < steps) :
    stringBody steps done (chars.flatMap escapedChar ++ '"' :: rest) =
      .ok (String.ofList (done.reverse ++ chars), rest) := by
  induction chars generalizing done steps with
  | nil =>
    obtain ⟨steps, rfl⟩ := Nat.exists_eq_succ_of_ne_zero (Nat.ne_zero_of_lt enough)
    simp [stringBody]
  | cons c chars ih =>
    obtain ⟨steps, rfl⟩ := Nat.exists_eq_succ_of_ne_zero (Nat.ne_zero_of_lt enough)
    rw [List.flatMap_cons, List.append_assoc, stringBody_escapedChar,
      ih (c :: done) (by simpa using enough)]
    simp

/-- Every character is written as at least one. -/
theorem length_le_length_escaped (chars : List Char) :
    chars.length ≤ (chars.flatMap escapedChar).length := by
  induction chars with
  | nil => exact Nat.zero_le _
  | cons c chars ih =>
    have some : 0 < (escapedChar c).length := by
      unfold escapedChar
      split_ifs <;> exact Nat.succ_pos _
    rw [List.flatMap_cons, List.length_append, List.length_cons]
    omega

/-- What follows the opening quote of a written string is read back. -/
theorem stringBody_text (s : String) (rest : List Char) {steps : Nat}
    (enough : (stringText s).length ≤ steps) :
    ∃ body, stringText s = '"' :: body ∧ stringBody steps [] (body ++ rest) = .ok (s, rest) := by
  refine ⟨s.toList.flatMap escapedChar ++ ['"'], rfl, ?_⟩
  have fewer := length_le_length_escaped s.toList
  rw [stringText, List.length_cons, List.length_append] at enough
  rw [List.append_assoc, List.singleton_append, stringBody_escaped _ _ _ (by omega)]
  simp

/-! ### Integers -/

/-- Nothing follows that could go on with a number. -/
def NumberEnds (rest : List Char) : Prop :=
  ∀ c ∈ rest.head?, c.isDigit = false ∧ c ≠ '.' ∧ c ≠ 'e' ∧ c ≠ 'E'

/-- The integers that are read as such: those of 64 bits, with or without a sign. -/
def IsWord64 (n : Int) : Prop := -(UInt64.size / 2 : Nat) ≤ n ∧ n < UInt64.size

instance (n : Int) : Decidable (IsWord64 n) := inferInstanceAs (Decidable (_ ∧ _))

theorem isDigit_of_mem_digits {n : Nat} {c : Char} (member : c ∈ Decimal.digits n) :
    c.isDigit = true :=
  Nat.isDigit_of_mem_toDigits (by decide) (by decide) member

theorem ofDigitChars_digits (n : Nat) : Nat.ofDigitChars 10 (Decimal.digits n) 0 = n :=
  Nat.ofDigitChars_toDigits (by decide) (by decide)

/-- A number has no zero in front, unless it is zero itself. -/
theorem eq_nil_of_digits {n : Nat} {more : List Char} (digits : Decimal.digits n = '0' :: more) :
    more = [] := by
  induction n using Nat.strong_induction_on generalizing more with
  | h n ih =>
    by_cases small : n < 10
    · rw [Decimal.digits, Nat.toDigits_of_lt_base small] at digits
      exact (List.cons.inj digits).2.symm
    · have shorter := Nat.toDigits_of_base_le (b := 10) (by decide) (Nat.le_of_not_lt small)
      rw [← Decimal.digits, ← Decimal.digits] at shorter
      cases front : Decimal.digits (n / 10) with
      | nil => exact absurd front (Decimal.digits_ne_nil _)
      | cons c rest =>
        rw [front, digits, List.cons_append] at shorter
        obtain ⟨rfl, _⟩ := List.cons.inj shorter
        obtain rfl := ih (n / 10) (by omega) front
        have zero : n / 10 = 0 := Decimal.digits_injective front
        omega

theorem le_ofDigitChars (digits : List Char) (significand : Nat) :
    significand ≤ Nat.ofDigitChars 10 digits significand := by
  induction digits generalizing significand with
  | nil => exact Nat.le_refl _
  | cons d rest ih =>
    rw [Nat.ofDigitChars_cons]
    exact Nat.le_trans (by omega) (ih _)

/-- Digits are gathered to the end as long as their number fits. -/
theorem gatherDigits_eq {digits : List Char} {significand : Nat}
    (fits : Nat.ofDigitChars 10 digits significand ≤ maxSignificand) :
    gatherDigits significand digits = (Nat.ofDigitChars 10 digits significand, []) := by
  induction digits generalizing significand with
  | nil => rfl
  | cons d rest ih =>
    rw [Nat.ofDigitChars_cons, Nat.mul_comm] at fits ⊢
    have next := Nat.le_trans (le_ofDigitChars rest _) fits
    rw [gatherDigits]
    simp only [if_pos next]
    exact ih fits

/-- What is gathered always fits. -/
theorem gatherDigits_le {digits : List Char} {significand : Nat}
    (fits : significand ≤ maxSignificand) :
    (gatherDigits significand digits).1 ≤ maxSignificand := by
  induction digits generalizing significand with
  | nil => exact fits
  | cons d rest ih =>
    rw [gatherDigits]
    split
    · exact ih ‹_›
    · exact fits

/-- The digits of a number that fits are read as that number. -/
theorem unsignedNumber_digits {n : Nat} (fits : n ≤ maxSignificand) (negative : Bool)
    {rest : List Char} (ends : NumberEnds rest) :
    unsignedNumber negative (Decimal.digits n ++ rest) =
      .ok (wholeNumber negative n, rest) := by
  -- All digits are taken, and only they.
  have whole : (Decimal.digits n ++ rest).takeWhile Char.isDigit = Decimal.digits n := by
    rw [List.takeWhile_append_of_pos fun c member => isDigit_of_mem_digits member]
    cases rest with
    | nil => simp
    | cons c rest => simp [(ends c rfl).1]
  have left : (Decimal.digits n ++ rest).dropWhile Char.isDigit = rest := by
    rw [List.dropWhile_append_of_pos fun c member => isDigit_of_mem_digits member]
    cases rest with
    | nil => rfl
    | cons c rest => simp [(ends c rfl).1]
  have gathered : gatherDigits 0 (Decimal.digits n) = (n, []) := by
    rw [gatherDigits_eq (by rwa [ofDigitChars_digits]), ofDigitChars_digits]
  unfold unsignedNumber
  rw [whole, left]
  dsimp only
  split
  · exact absurd ‹_› (Decimal.digits_ne_nil n)
  · exact absurd (eq_nil_of_digits ‹_›) (List.cons_ne_nil _ _)
  · rw [gathered]
    dsimp only
    split
    · exact absurd rfl (ends '.' rfl).2.1
    · exact absurd rfl (ends 'e' rfl).2.2.1
    · exact absurd rfl (ends 'E' rfl).2.2.2
    · rfl

/-- An integer of 64 bits is read back. -/
theorem number_signedDigits {n : Int} (fits : IsWord64 n) {rest : List Char}
    (ends : NumberEnds rest) :
    number (Decimal.signedDigits n ++ rest) = .ok (.integer n, rest) := by
  obtain ⟨low, high⟩ := fits
  cases n with
  | ofNat n =>
    have small : n ≤ maxSignificand := by
      simp only [maxSignificand, Int.ofNat_eq_natCast] at *
      omega
    have plain : number (Decimal.digits n ++ rest) =
        unsignedNumber false (Decimal.digits n ++ rest) := by
      cases front : Decimal.digits n with
      | nil => exact absurd front (Decimal.digits_ne_nil n)
      | cons c more =>
        have digit : c.isDigit = true := isDigit_of_mem_digits (by rw [front]; simp)
        unfold number
        split
        · simp_all
        · rfl
    rw [Decimal.signedDigits, plain, unsignedNumber_digits small false ends]
    rfl
  | negSucc n =>
    have small : n + 1 ≤ maxSignificand := by
      simp only [maxSignificand] at *
      omega
    rw [Decimal.signedDigits, List.cons_append, number, unsignedNumber_digits small true ends]
    have kept : ¬ (n + 1 = 0 ∨ UInt64.size / 2 < n + 1) := by omega
    simp only [wholeNumber, if_neg kept]
    rfl

/-! ### No other integers -/

/-- A float is never an integer. -/
theorem finishFloat_ne_integer {negative : Bool} {significand : Nat} {exponent : Int}
    {text rest : List Char} {n : Int} :
    finishFloat negative significand exponent text ≠ .ok (.integer n, rest) := by
  unfold finishFloat
  grind

theorem isWord64_of_wholeNumber {negative : Bool} {significand : Nat} {n : Int}
    (fits : significand ≤ maxSignificand)
    (whole : wholeNumber negative significand = .integer n) : IsWord64 n := by
  simp only [wholeNumber, maxSignificand, IsWord64] at *
  have size : UInt64.size = 18446744073709551616 := rfl
  split_ifs at whole
  · cases whole; omega
  · cases whole; omega

theorem isWord64_of_unsignedNumber {negative : Bool} {text rest : List Char} {n : Int}
    (read : unsignedNumber negative text = .ok (.integer n, rest)) : IsWord64 n := by
  have fits (digits : List Char) : (gatherDigits 0 digits).1 ≤ maxSignificand :=
    gatherDigits_le (Nat.zero_le _)
  unfold unsignedNumber at read
  dsimp only at read
  split at read
  · cases read
  · cases read
  split at read
  · split at read
    · cases read
    · exact absurd read finishFloat_ne_integer
  · exact absurd read finishFloat_ne_integer
  · exact absurd read finishFloat_ne_integer
  split at read
  · injection read with whole
    injection whole with whole
    exact isWord64_of_wholeNumber (fits _) whole
  · exact absurd read finishFloat_ne_integer

/-- Every integer that is read is one of 64 bits. -/
theorem isWord64_of_number {text rest : List Char} {n : Int}
    (read : number text = .ok (.integer n, rest)) : IsWord64 n := by
  unfold number at read
  split at read <;> exact isWord64_of_unsignedNumber read

end SymbolAtlas.Json
