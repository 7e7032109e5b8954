import SymbolAtlas.Proofs.Json.Fronts

/-! A number is taken off the front of a text, and what follows has no say in it as long
as the number cannot be gone on with. What is read as a number is also skipped as one:
the digits, the fraction and the exponent are delimited in the same way, and only what
is made of them differs. -/
namespace SymbolAtlas.Json

/-- All digits that a text starts with. -/
theorem digits_split (text : List Char) :
    ∃ digits rest, text = digits ++ rest ∧ text.takeWhile Char.isDigit = digits ∧
      text.dropWhile Char.isDigit = rest ∧ ∀ c ∈ digits, c.isDigit = true :=
  ⟨_, _, List.takeWhile_append_dropWhile.symm, rfl, rfl, fun _ => List.mem_takeWhile_imp⟩

/-- No digit comes next. -/
def NoDigit (text : List Char) : Prop := ∀ c ∈ text.head?, c.isDigit = false

theorem NumberEnds.noDigit {text : List Char} (ends : NumberEnds text) : NoDigit text :=
  fun c front => (ends c front).1

theorem noDigit_cons {c : Char} (other : c.isDigit = false) (text : List Char) :
    NoDigit (c :: text) := by
  intro d front
  cases front
  exact other

/-- Digits are taken to the last one. -/
theorem digits_append {digits rest : List Char} (all : ∀ c ∈ digits, c.isDigit = true)
    (ends : NoDigit rest) :
    (digits ++ rest).takeWhile Char.isDigit = digits ∧
      (digits ++ rest).dropWhile Char.isDigit = rest := by
  rw [List.takeWhile_append_of_pos all, List.dropWhile_append_of_pos all]
  cases rest with
  | nil => simp
  | cons c rest => simp [ends c rfl]

theorem exponentSign_front (text : List Char) :
    ∃ sign, text = sign ++ (exponentSign text).2 ∧ ∀ digits after,
      (∀ c ∈ digits, c.isDigit = true) → digits ≠ [] →
      exponentSign (sign ++ (digits ++ after)) = ((exponentSign text).1, digits ++ after) := by
  unfold exponentSign
  split
  · exact ⟨['+'], rfl, fun _ _ _ _ => rfl⟩
  · exact ⟨['-'], rfl, fun _ _ _ _ => rfl⟩
  · rename_i plus minus
    refine ⟨[], rfl, fun digits after all some => ?_⟩
    cases digits with
    | nil => exact absurd rfl some
    | cons c digits =>
      have digit := all c List.mem_cons_self
      rw [List.nil_append, List.cons_append]
      split
      · rename_i same
        rw [(List.cons.inj same).1] at digit
        contradiction
      · rename_i same
        rw [(List.cons.inj same).1] at digit
        contradiction
      · rfl

/-- The marks of an exponent. -/
def IsMark (c : Char) : Prop := c = 'e' ∨ c = 'E'

theorem IsMark.not_isDigit {c : Char} (marked : IsMark c) : c.isDigit = false := by
  rcases marked with rfl | rfl <;> rfl

theorem marked_or_unmarked (text : List Char) :
    (∃ mark more, text = mark :: more ∧ IsMark mark) ∨ ∀ c ∈ text.head?, ¬ IsMark c := by
  cases text with
  | nil => exact .inr fun _ front => nomatch front
  | cons c more =>
    by_cases marked : IsMark c
    · exact .inl ⟨c, more, rfl, marked⟩
    · refine .inr fun d front => ?_
      cases front
      exact marked

section Exponents
variable {negative : Bool} {significand : Nat} {exponent : Int}

/-- The float for a significand and an exponent, in front of a text. -/
def floatBefore (negative : Bool) (significand : Nat) (exponent : Int) (after : List Char) :
    Except Fault (Number × List Char) :=
  match scaleDecimal? significand exponent with
  | some x => .ok (.float (if negative then -x else x), after)
  | none => .error .malformed

theorem floatBefore_front {after rest : List Char} {n : Number}
    (read : floatBefore negative significand exponent after = .ok (n, rest)) :
    after = rest ∧ ∀ other, floatBefore negative significand exponent other = .ok (n, other) := by
  unfold floatBefore at read ⊢
  split at read
  · cases read
    exact ⟨rfl, fun _ => rfl⟩
  · contradiction

theorem finishFloat_unmarked {text : List Char} (unmarked : ∀ c ∈ text.head?, ¬ IsMark c) :
    finishFloat negative significand exponent text =
      floatBefore negative significand exponent text := by
  unfold finishFloat floatBefore
  dsimp only
  split
  · exact absurd (.inl rfl) (unmarked 'e' rfl)
  · exact absurd (.inr rfl) (unmarked 'E' rfl)
  · rfl

theorem skipExponent_unmarked {text : List Char} (unmarked : ∀ c ∈ text.head?, ¬ IsMark c) :
    skipExponent text = .ok text := by
  unfold skipExponent
  split
  · exact absurd (.inl rfl) (unmarked 'e' rfl)
  · exact absurd (.inr rfl) (unmarked 'E' rfl)
  · rfl

theorem finishFloat_marked {mark : Char} (marked : IsMark mark) (more : List Char) :
    finishFloat negative significand exponent (mark :: more) =
      if ((exponentSign more).2.takeWhile Char.isDigit).isEmpty then
        .error (missingDigit ((exponentSign more).2.dropWhile Char.isDigit))
      else
        let power : Int :=
          Nat.ofDigitChars 10 ((exponentSign more).2.takeWhile Char.isDigit) 0
        floatBefore negative significand
          (if (exponentSign more).1 then exponent - power else exponent + power)
          ((exponentSign more).2.dropWhile Char.isDigit) := by
  rcases marked with rfl | rfl <;> rfl

theorem skipExponent_marked {mark : Char} (marked : IsMark mark) (more : List Char) :
    skipExponent (mark :: more) =
      if ((exponentSign more).2.takeWhile Char.isDigit).isEmpty then .error .malformed
      else .ok ((exponentSign more).2.dropWhile Char.isDigit) := by
  rcases marked with rfl | rfl <;> rfl

theorem unmarked_of_numberEnds {text : List Char} (ends : NumberEnds text) :
    ∀ c ∈ text.head?, ¬ IsMark c := by
  rintro c front (rfl | rfl)
  · exact (ends _ front).2.2.1 rfl
  · exact (ends _ front).2.2.2 rfl

/-- Behind its mark, the exponent that is read is the one that is skipped. -/
theorem finishFloat_marked_front {mark : Char} (marked : IsMark mark) {more rest : List Char}
    {n : Number} (read : finishFloat negative significand exponent (mark :: more) = .ok (n, rest)) :
    ∃ front, more = front ++ rest ∧ ∀ after, NumberEnds after →
      finishFloat negative significand exponent (mark :: (front ++ after)) = .ok (n, after) ∧
        skipExponent (mark :: (front ++ after)) = .ok after := by
  obtain ⟨sign, signed, resigned⟩ := exponentSign_front more
  obtain ⟨digits, left, split, taken, dropped, all⟩ := digits_split (exponentSign more).2
  rw [finishFloat_marked marked, taken, dropped] at read
  split at read
  · contradiction
  rename_i some
  obtain ⟨rfl, again⟩ := floatBefore_front read
  rw [split] at signed
  refine ⟨sign ++ digits, by simpa using signed, fun after ends => ?_⟩
  have signs := resigned digits after all (by simpa using some)
  obtain ⟨taken, dropped⟩ := digits_append all ends.noDigit
  rw [List.append_assoc, finishFloat_marked marked, skipExponent_marked marked, signs, taken,
    dropped, if_neg some, if_neg some]
  exact ⟨again after, rfl⟩

/-- Without a mark nothing more is read or skipped. -/
theorem finishFloat_unmarked_front {text rest : List Char} (unmarked : ∀ c ∈ text.head?, ¬ IsMark c)
    {n : Number} (read : finishFloat negative significand exponent text = .ok (n, rest)) :
    text = rest ∧ ∀ after, NumberEnds after →
      finishFloat negative significand exponent after = .ok (n, after) ∧
        skipExponent after = .ok after := by
  rw [finishFloat_unmarked unmarked] at read
  obtain ⟨same, again⟩ := floatBefore_front read
  refine ⟨same, fun after ends => ?_⟩
  rw [finishFloat_unmarked (unmarked_of_numberEnds ends),
    skipExponent_unmarked (unmarked_of_numberEnds ends)]
  exact ⟨again after, rfl⟩

theorem finishFloat_front {text rest : List Char} {n : Number}
    (read : finishFloat negative significand exponent text = .ok (n, rest)) :
    ∃ front, text = front ++ rest ∧ ∀ after, NumberEnds after →
      finishFloat negative significand exponent (front ++ after) = .ok (n, after) ∧
        skipExponent (front ++ after) = .ok after ∧ NoDigit (front ++ after) := by
  rcases marked_or_unmarked text with ⟨mark, more, rfl, marked⟩ | unmarked
  · obtain ⟨front, rfl, again⟩ := finishFloat_marked_front marked read
    refine ⟨mark :: front, rfl, fun after ends => ?_⟩
    obtain ⟨reads, skips⟩ := again after ends
    exact ⟨reads, skips, noDigit_cons marked.not_isDigit _⟩
  · obtain ⟨rfl, again⟩ := finishFloat_unmarked_front unmarked read
    refine ⟨[], rfl, fun after ends => ?_⟩
    obtain ⟨reads, skips⟩ := again after ends
    exact ⟨reads, skips, ends.noDigit⟩

end Exponents

/-- The digits of a whole part: there are some, and none follows a zero in front. -/
def IsWhole (digits : List Char) : Prop :=
  digits ≠ [] ∧ (∀ more, digits = '0' :: more → more = []) ∧ ∀ c ∈ digits, c.isDigit = true

/-- Reads on after the whole part of a number. -/
def afterWhole (negative : Bool) (whole : List Char) : Reader Number := fun text =>
  let (significand, lost) := gatherDigits 0 whole
  match text with
  | '.' :: more =>
    let digits := more.takeWhile Char.isDigit
    let rest := more.dropWhile Char.isDigit
    if digits.isEmpty then .error (missingDigit rest)
    else
      let (significand, dropped) := gatherDigits significand digits
      finishFloat negative significand
        ((lost.length : Int) - ((digits.length - dropped.length : Nat) : Int)) rest
  | 'e' :: _ | 'E' :: _ => finishFloat negative significand lost.length text
  | _ =>
    if lost.isEmpty then .ok (wholeNumber negative significand, text)
    else finishFloat negative significand lost.length text

/-- Skips what may follow the whole part of a number. -/
def skipAfterWhole : List Char → Except Fault (List Char)
  | '.' :: more =>
    if (more.takeWhile Char.isDigit).isEmpty then .error .malformed
    else skipExponent (more.dropWhile Char.isDigit)
  | text => skipExponent text

theorem skipAfterWhole_unpointed {text : List Char} (unpointed : ∀ more, text ≠ '.' :: more) :
    skipAfterWhole text = skipExponent text := by
  unfold skipAfterWhole
  split
  · exact absurd rfl (unpointed _)
  · rfl

theorem isWhole_of_digits {digits : List Char} (some : digits ≠ [])
    (zero : ∀ c more, digits ≠ '0' :: c :: more) (all : ∀ c ∈ digits, c.isDigit = true) :
    IsWhole digits := by
  refine ⟨some, fun more same => ?_, all⟩
  cases more with
  | nil => rfl
  | cons c more => exact absurd same (zero c more)

theorem unsignedNumber_front {negative : Bool} {text rest : List Char} {n : Number}
    (read : unsignedNumber negative text = .ok (n, rest)) :
    ∃ whole left, text = whole ++ left ∧ IsWhole whole ∧
      afterWhole negative whole left = .ok (n, rest) := by
  obtain ⟨digits, left, rfl, taken, dropped, all⟩ := digits_split text
  unfold unsignedNumber at read
  dsimp only at read
  rw [taken, dropped] at read
  split at read
  · cases read
  · cases read
  · rename_i some zero
    exact ⟨digits, left, rfl, isWhole_of_digits some zero all, read⟩

theorem skipUnsigned_front {text rest : List Char} (skipped : skipUnsigned text = .ok rest) :
    ∃ whole left, text = whole ++ left ∧ IsWhole whole ∧ skipAfterWhole left = .ok rest := by
  obtain ⟨digits, left, rfl, taken, dropped, all⟩ := digits_split text
  unfold skipUnsigned at skipped
  rw [taken, dropped] at skipped
  split at skipped
  · cases skipped
  · cases skipped
  · rename_i some zero
    exact ⟨digits, _, rfl, isWhole_of_digits some zero all, skipped⟩
  · rename_i some zero unpointed
    exact ⟨digits, left, rfl, isWhole_of_digits some zero all,
      (skipAfterWhole_unpointed unpointed).trans skipped⟩

section Whole
variable {negative : Bool} {whole : List Char} (is : IsWhole whole)
include is

theorem unsignedNumber_append {text : List Char} (ends : NoDigit text) :
    unsignedNumber negative (whole ++ text) = afterWhole negative whole text := by
  obtain ⟨taken, dropped⟩ := digits_append is.2.2 ends
  unfold unsignedNumber
  rw [taken, dropped]
  dsimp only
  split
  · exact absurd rfl is.1
  · exact absurd (is.2.1 _ rfl) (List.cons_ne_nil _ _)
  · rfl

theorem skipUnsigned_append {text : List Char} (ends : NoDigit text) :
    skipUnsigned (whole ++ text) = skipAfterWhole text := by
  obtain ⟨taken, dropped⟩ := digits_append is.2.2 ends
  unfold skipUnsigned
  rw [taken, dropped]
  split
  · exact absurd rfl is.1
  · exact absurd (is.2.1 _ rfl) (List.cons_ne_nil _ _)
  · rfl
  · rename_i unpointed
    exact (skipAfterWhole_unpointed unpointed).symm

end Whole

section AfterWhole
variable {negative : Bool} {whole : List Char}

theorem afterWhole_pointed (more : List Char) :
    afterWhole negative whole ('.' :: more) =
      let (significand, lost) := gatherDigits 0 whole
      let digits := more.takeWhile Char.isDigit
      let rest := more.dropWhile Char.isDigit
      if digits.isEmpty then .error (missingDigit rest)
      else
        let (significand, dropped) := gatherDigits significand digits
        finishFloat negative significand
          ((lost.length : Int) - ((digits.length - dropped.length : Nat) : Int)) rest := rfl

theorem afterWhole_marked {mark : Char} (marked : IsMark mark) (more : List Char) :
    afterWhole negative whole (mark :: more) =
      finishFloat negative (gatherDigits 0 whole).1 (gatherDigits 0 whole).2.length
        (mark :: more) := by
  rcases marked with rfl | rfl <;> rfl

theorem skipAfterWhole_marked {mark : Char} (marked : IsMark mark) (more : List Char) :
    skipAfterWhole (mark :: more) = skipExponent (mark :: more) := by
  rcases marked with rfl | rfl <;> rfl

theorem afterWhole_ended {text : List Char} (ended : ∀ c ∈ text.head?, c ≠ '.' ∧ ¬ IsMark c) :
    afterWhole negative whole text =
      if (gatherDigits 0 whole).2.isEmpty then
        .ok (wholeNumber negative (gatherDigits 0 whole).1, text)
      else finishFloat negative (gatherDigits 0 whole).1 (gatherDigits 0 whole).2.length text := by
  unfold afterWhole
  dsimp only
  split
  · exact absurd rfl (ended '.' rfl).1
  · exact absurd (.inl rfl) (ended 'e' rfl).2
  · exact absurd (.inr rfl) (ended 'E' rfl).2
  · rfl

theorem unpointed_of_numberEnds {text : List Char} (ends : NumberEnds text) :
    ∀ more, text ≠ '.' :: more := by
  rintro more rfl
  exact (ends '.' rfl).2.1 rfl

theorem ended_of_numberEnds {text : List Char} (ends : NumberEnds text) :
    ∀ c ∈ text.head?, c ≠ '.' ∧ ¬ IsMark c :=
  fun c front => ⟨(ends c front).2.1, unmarked_of_numberEnds ends c front⟩

/-- The same is skipped after the whole part as is read after it. -/
theorem afterWhole_front {text rest : List Char} {n : Number}
    (read : afterWhole negative whole text = .ok (n, rest)) :
    ∃ front, text = front ++ rest ∧ ∀ after, NumberEnds after →
      afterWhole negative whole (front ++ after) = .ok (n, after) ∧
        skipAfterWhole (front ++ after) = .ok after ∧ NoDigit (front ++ after) := by
  by_cases pointed : ∃ more, text = '.' :: more
  · obtain ⟨more, rfl⟩ := pointed
    obtain ⟨digits, left, rfl, taken, dropped, all⟩ := digits_split more
    simp only [afterWhole_pointed, taken, dropped] at read
    split at read
    · contradiction
    rename_i some
    obtain ⟨front, rfl, again⟩ := finishFloat_front read
    refine ⟨'.' :: (digits ++ front), by simp, fun after ends => ?_⟩
    obtain ⟨reads, skips, next⟩ := again after ends
    obtain ⟨taken, dropped⟩ := digits_append all next
    simp only [List.cons_append, List.append_assoc, afterWhole_pointed, skipAfterWhole, taken,
      dropped, if_neg some]
    exact ⟨reads, skips, noDigit_cons rfl _⟩
  rcases marked_or_unmarked text with ⟨mark, more, rfl, marked⟩ | unmarked
  · rw [afterWhole_marked marked] at read
    obtain ⟨front, rfl, again⟩ := finishFloat_marked_front marked read
    refine ⟨mark :: front, rfl, fun after ends => ?_⟩
    rw [List.cons_append, afterWhole_marked marked, skipAfterWhole_marked marked]
    obtain ⟨reads, skips⟩ := again after ends
    exact ⟨reads, skips, noDigit_cons marked.not_isDigit _⟩
  · have ended : ∀ c ∈ text.head?, c ≠ '.' ∧ ¬ IsMark c := by
      refine fun c front => ⟨?_, unmarked c front⟩
      rintro rfl
      exact pointed (List.head?_eq_some_iff.mp front)
    have skips (after : List Char) (ends : NumberEnds after) : skipAfterWhole after = .ok after :=
      (skipAfterWhole_unpointed (unpointed_of_numberEnds ends)).trans
        (skipExponent_unmarked (unmarked_of_numberEnds ends))
    rw [afterWhole_ended ended] at read
    split at read
    · rename_i whole
      cases read
      refine ⟨[], rfl, fun after ends => ⟨?_, skips after ends, ends.noDigit⟩⟩
      rw [List.nil_append, afterWhole_ended (ended_of_numberEnds ends), if_pos whole]
    · rename_i lost
      obtain ⟨rfl, again⟩ := finishFloat_unmarked_front unmarked read
      refine ⟨[], rfl, fun after ends => ⟨?_, skips after ends, ends.noDigit⟩⟩
      rw [List.nil_append, afterWhole_ended (ended_of_numberEnds ends), if_neg lost]
      exact (again after ends).1

end AfterWhole

theorem skipExponent_front {text rest : List Char} (skipped : skipExponent text = .ok rest) :
    ∃ front, text = front ++ rest ∧ ∀ after, NumberEnds after →
      skipExponent (front ++ after) = .ok after ∧ NoDigit (front ++ after) ∧
        ∀ more, front ++ after ≠ '.' :: more := by
  rcases marked_or_unmarked text with ⟨mark, more, rfl, marked⟩ | unmarked
  · obtain ⟨sign, signed, resigned⟩ := exponentSign_front more
    obtain ⟨digits, left, split, taken, dropped, all⟩ := digits_split (exponentSign more).2
    rw [skipExponent_marked marked, taken, dropped] at skipped
    split at skipped
    · contradiction
    rename_i some
    cases skipped
    rw [split] at signed
    refine ⟨mark :: (sign ++ digits), by simpa using signed, fun after ends => ?_⟩
    have signs := resigned digits after all (by simpa using some)
    obtain ⟨taken, dropped⟩ := digits_append all ends.noDigit
    rw [List.cons_append, List.append_assoc, skipExponent_marked marked, signs, taken, dropped,
      if_neg some]
    refine ⟨rfl, noDigit_cons marked.not_isDigit _, fun more same => ?_⟩
    rw [(List.cons.inj same).1] at marked
    exact absurd marked (by unfold IsMark; decide)
  · rw [skipExponent_unmarked unmarked] at skipped
    cases skipped
    refine ⟨[], rfl, fun after ends => ?_⟩
    rw [List.nil_append, skipExponent_unmarked (unmarked_of_numberEnds ends)]
    exact ⟨rfl, ends.noDigit, unpointed_of_numberEnds ends⟩

theorem skipAfterWhole_front {text rest : List Char} (skipped : skipAfterWhole text = .ok rest) :
    ∃ front, text = front ++ rest ∧ ∀ after, NumberEnds after →
      skipAfterWhole (front ++ after) = .ok after ∧ NoDigit (front ++ after) := by
  by_cases pointed : ∃ more, text = '.' :: more
  · obtain ⟨more, rfl⟩ := pointed
    obtain ⟨digits, left, rfl, taken, dropped, all⟩ := digits_split more
    rw [skipAfterWhole, taken, dropped] at skipped
    split at skipped
    · contradiction
    rename_i some
    obtain ⟨front, rfl, again⟩ := skipExponent_front skipped
    refine ⟨'.' :: (digits ++ front), by simp, fun after ends => ?_⟩
    obtain ⟨skips, next, -⟩ := again after ends
    obtain ⟨taken, dropped⟩ := digits_append all next
    rw [List.cons_append, List.append_assoc, skipAfterWhole, taken, dropped, if_neg some]
    exact ⟨skips, noDigit_cons rfl _⟩
  · rw [skipAfterWhole_unpointed (not_exists.mp pointed)] at skipped
    obtain ⟨front, rfl, again⟩ := skipExponent_front skipped
    refine ⟨front, rfl, fun after ends => ?_⟩
    obtain ⟨skips, next, unpointed⟩ := again after ends
    exact ⟨(skipAfterWhole_unpointed unpointed).trans skips, next⟩

theorem number_unsigned {text : List Char} (unsigned : ∀ more, text ≠ '-' :: more) :
    number text = unsignedNumber false text := by
  unfold number
  split
  · exact absurd rfl (unsigned _)
  · rfl

theorem skipNumber_unsigned {text : List Char} (unsigned : ∀ more, text ≠ '-' :: more) :
    skipNumber text = skipUnsigned text := by
  unfold skipNumber
  split
  · exact absurd rfl (unsigned _)
  · rfl

theorem IsWhole.unsigned {whole : List Char} (is : IsWhole whole) (text : List Char) :
    ∀ more, whole ++ text ≠ '-' :: more := by
  intro more same
  cases whole with
  | nil => exact is.1 rfl
  | cons c whole =>
    have digit := is.2.2 c List.mem_cons_self
    rw [(List.cons.inj same).1] at digit
    contradiction

/-- A number that is read is also skipped. -/
theorem number_front {text rest : List Char} {n : Number} (read : number text = .ok (n, rest)) :
    ∃ front, front ≠ [] ∧ text = front ++ rest ∧ ∀ after, NumberEnds after →
      number (front ++ after) = .ok (n, after) ∧ skipNumber (front ++ after) = .ok after := by
  by_cases signed : ∃ more, text = '-' :: more
  · obtain ⟨more, rfl⟩ := signed
    rw [number] at read
    obtain ⟨whole, left, rfl, is, later⟩ := unsignedNumber_front read
    obtain ⟨front, rfl, again⟩ := afterWhole_front later
    refine ⟨'-' :: (whole ++ front), List.cons_ne_nil _ _, by simp, fun after ends => ?_⟩
    obtain ⟨reads, skips, next⟩ := again after ends
    rw [List.cons_append, List.append_assoc, number, skipNumber, unsignedNumber_append is next,
      skipUnsigned_append is next]
    exact ⟨reads, skips⟩
  · rw [number_unsigned (not_exists.mp signed)] at read
    obtain ⟨whole, left, rfl, is, later⟩ := unsignedNumber_front read
    obtain ⟨front, rfl, again⟩ := afterWhole_front later
    refine ⟨whole ++ front, by simp [is.1], by simp, fun after ends => ?_⟩
    obtain ⟨reads, skips, next⟩ := again after ends
    rw [List.append_assoc, number_unsigned (is.unsigned _), skipNumber_unsigned (is.unsigned _),
      unsignedNumber_append is next, skipUnsigned_append is next]
    exact ⟨reads, skips⟩

theorem skipNumber_front {text rest : List Char} (skipped : skipNumber text = .ok rest) :
    ∃ front, front ≠ [] ∧ text = front ++ rest ∧
      ∀ after, NumberEnds after → skipNumber (front ++ after) = .ok after := by
  by_cases signed : ∃ more, text = '-' :: more
  · obtain ⟨more, rfl⟩ := signed
    rw [skipNumber] at skipped
    obtain ⟨whole, left, rfl, is, later⟩ := skipUnsigned_front skipped
    obtain ⟨front, rfl, again⟩ := skipAfterWhole_front later
    refine ⟨'-' :: (whole ++ front), List.cons_ne_nil _ _, by simp, fun after ends => ?_⟩
    obtain ⟨skips, next⟩ := again after ends
    rw [List.cons_append, List.append_assoc, skipNumber, skipUnsigned_append is next]
    exact skips
  · rw [skipNumber_unsigned (not_exists.mp signed)] at skipped
    obtain ⟨whole, left, rfl, is, later⟩ := skipUnsigned_front skipped
    obtain ⟨front, rfl, again⟩ := skipAfterWhole_front later
    refine ⟨whole ++ front, by simp [is.1], by simp, fun after ends => ?_⟩
    obtain ⟨skips, next⟩ := again after ends
    rw [List.append_assoc, skipNumber_unsigned (is.unsigned _), skipUnsigned_append is next]
    exact skips

end SymbolAtlas.Json
