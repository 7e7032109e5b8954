import Mathlib.Data.List.Forall2
import SymbolAtlas.Proofs.Json.Lexemes
import SymbolAtlas.Proofs.Text.Separation
import SymbolAtlas.Text.Quoted

/-! A quoted text says which characters it stands for, whatever these are. Every
character is spelled in one of a few ways, and no spelling shows a control code or a
quote that no backslash guards. So the text ends at the first such quote, and one reader
takes the spellings apart again: a backslash that is meant for itself is spelled by two,
and a number ends at its brace, whatever digits follow. Which characters are spelled by
their number is a parameter throughout: the reader is the same for every choice that hides
the control codes. -/
namespace SymbolAtlas.Text

/-- How a character is spelled in a text with double quotes around it. -/
inductive Spells (p : Printability) : Char → List Char → Prop where
  | quote : Spells p '"' ['\\', '"']
  | backslash : Spells p '\\' ['\\', '\\']
  | null : Spells p '\x00' ['\\', '0']
  | tab : Spells p '\t' ['\\', 't']
  | newline : Spells p '\n' ['\\', 'n']
  | carriageReturn : Spells p '\r' ['\\', 'r']
  | number {c : Char} (nameless : c ∉ ['\x00', '\t', '\n', '\r'])
      (hidden : p.hides c = true) : Spells p c (spelledByNumber c)
  | itself {c : Char} (bare : c ≠ '"' ∧ c ≠ '\\') (shown : p.hides c = false) : Spells p c [c]

/-- What lies before and after the first quote that no backslash guards, if there is
one. A backslash guards the character behind it, unless it is guarded itself. -/
def cutUnguarded (guarded : Bool) : List Char → Option (List Char × List Char)
  | [] => none
  | c :: rest =>
    if c = '"' ∧ guarded = false then some ([], rest)
    else (cutUnguarded (c = '\\' && !guarded) rest).map fun (before, after) => (c :: before, after)

/-- Where a reader of spellings is. -/
inductive Reading where
  /-- Between two characters. -/
  | between
  /-- Behind a backslash. -/
  | guarded
  /-- Before the brace that opens a number. -/
  | opening
  /-- In the digits of a number, with the value of those before. -/
  | number (value : Nat)
  deriving DecidableEq, Repr

/-- The character that a letter behind a backslash stands for. -/
def guardedChar? : Char → Option Char
  | '"' => some '"'
  | '\\' => some '\\'
  | '0' => some '\x00'
  | 't' => some '\t'
  | 'n' => some '\n'
  | 'r' => some '\r'
  | _ => none

/-- The characters that spellings stand for. -/
def unspelled : Reading → List Char → Option (List Char)
  | .between, [] => some []
  | _, [] => none
  | .between, c :: rest =>
    if c = '\\' then unspelled .guarded rest else (unspelled .between rest).map (c :: ·)
  | .guarded, c :: rest =>
    if c = 'u' then unspelled .opening rest
    else (guardedChar? c).bind fun d => (unspelled .between rest).map (d :: ·)
  | .opening, c :: rest => if c = '\x7b' then unspelled (.number 0) rest else none
  | .number value, c :: rest =>
    if c = '\x7d' then
      if value.isValidChar then (unspelled .between rest).map (Char.ofNat value :: ·) else none
    else (Json.hexValue? c).bind fun digit => unspelled (.number (value * 16 + digit)) rest

/-- The text that a quoted form stands for: its spellings between a quote in front and
the first unguarded one, with which it must end. -/
def unquoted (form : String) : Option String :=
  match form.toList with
  | '"' :: rest =>
    match cutUnguarded false rest with
    | some (body, []) => (unspelled .between body).map String.ofList
    | _ => none
  | _ => none

theorem spells_quotedChar (p : Printability) (c : Char) : Spells p c (quotedChar p '"' c) := by
  unfold quotedChar
  split
  · rename_i special
    rcases special with rfl | rfl
    · exact .quote
    · exact .backslash
  · rename_i bare
    split
    · exact ‹c = '\x00'› ▸ .null
    split
    · exact ‹c = '\t'› ▸ .tab
    split
    · exact ‹c = '\n'› ▸ .newline
    split
    · exact ‹c = '\r'› ▸ .carriageReturn
    split
    · exact .number (by simp [*]) ‹_›
    · exact .itself (not_or.mp bare) (Bool.eq_false_iff.mpr ‹_›)

/-! ### Digits -/

theorem digitChar_cases : ∀ d < 16, isControl (Nat.digitChar d) = false ∧
    Nat.digitChar d ≠ '"' ∧ Nat.digitChar d ≠ '\\' ∧ Nat.digitChar d ≠ '\x7d' := by decide

theorem exists_digitChar_of_mem {n : Nat} {c : Char} (member : c ∈ Nat.toDigits 16 n) :
    ∃ d < 16, c = Nat.digitChar d := by
  induction n using Nat.strong_induction_on with
  | h n ih =>
    by_cases small : n < 16
    · rw [Nat.toDigits_of_lt_base small] at member
      exact ⟨n, small, List.mem_singleton.mp member⟩
    · rw [Nat.toDigits_of_base_le (by decide) (Nat.le_of_not_lt small)] at member
      rcases List.mem_append.mp member with front | last
      · exact ih (n / 16) (by omega) front
      · exact ⟨n % 16, by omega, List.mem_singleton.mp last⟩

/-- A number in braces shows no control code, no quote and no backslash. -/
theorem braced_cases (n : Nat) : ∀ d ∈ '\x7b' :: (Nat.toDigits 16 n ++ ['\x7d']),
    isControl d = false ∧ d ≠ '"' ∧ d ≠ '\\' := by
  intro d member
  simp only [List.mem_cons, List.mem_append, List.not_mem_nil, or_false] at member
  rcases member with rfl | digit | rfl
  · decide
  · obtain ⟨value, small, rfl⟩ := exists_digitChar_of_mem digit
    obtain ⟨visible, unquoted, unescaped, _⟩ := digitChar_cases value small
    exact ⟨visible, unquoted, unescaped⟩
  · decide

theorem unspelled_digit {d : Nat} (small : d < 16) (value : Nat) (rest : List Char) :
    unspelled (.number value) (Nat.digitChar d :: rest) =
      unspelled (.number (value * 16 + d)) rest := by
  rw [unspelled, if_neg (digitChar_cases d small).2.2.2, Json.hexValue?_digitChar d small]
  rfl

/-- The digits of a number are read as its value. -/
theorem unspelled_digits (n : Nat) (rest : List Char) :
    unspelled (.number 0) (Nat.toDigits 16 n ++ rest) = unspelled (.number n) rest := by
  induction n using Nat.strong_induction_on generalizing rest with
  | h n ih =>
    by_cases small : n < 16
    · rw [Nat.toDigits_of_lt_base small, List.singleton_append, unspelled_digit small,
        Nat.zero_mul, Nat.zero_add]
    · rw [Nat.toDigits_of_base_le (by decide) (Nat.le_of_not_lt small), List.append_assoc,
        List.singleton_append, ih (n / 16) (by omega), unspelled_digit (Nat.mod_lt n (by decide)),
        Nat.div_add_mod']

/-! ### One character -/

theorem cutUnguarded_bare {front : List Char} (bare : ∀ c ∈ front, c ≠ '"' ∧ c ≠ '\\')
    (rest : List Char) : cutUnguarded false (front ++ rest) =
      (cutUnguarded false rest).map fun (before, after) => (front ++ before, after) := by
  induction front with
  | nil => simp
  | cons c front ih =>
    obtain ⟨⟨unquoted, unescaped⟩, others⟩ := List.forall_mem_cons.mp bare
    have plain : (decide (c = '\\') && !false) = false := by simp [unescaped]
    rw [List.cons_append, cutUnguarded, if_neg fun quoted => unquoted quoted.1, plain, ih others,
      Option.map_map]
    rfl

theorem cutUnguarded_guarded (c : Char) (rest : List Char) :
    cutUnguarded false ('\\' :: c :: rest) =
      (cutUnguarded false rest).map fun (before, after) => ('\\' :: c :: before, after) := by
  simp [cutUnguarded, Function.comp_def]

namespace Spells
variable {p : Printability} {c : Char} {piece : List Char}

/-- A spelling is read as its character, whatever follows. -/
theorem unspelled_append (spells : Spells p c piece) (rest : List Char) :
    unspelled .between (piece ++ rest) = (unspelled .between rest).map (c :: ·) := by
  cases spells with
  | quote | backslash | null | tab | newline | carriageReturn => rfl
  | number nameless hidden =>
    have opened : unspelled .between (spelledByNumber c ++ rest) =
        unspelled (.number 0) (Nat.toDigits 16 c.toNat ++ '\x7d' :: rest) := by
      simp [spelledByNumber, unspelled]
    have valid : c.toNat.isValidChar := c.valid
    rw [opened, unspelled_digits, unspelled, if_pos rfl, if_pos valid, Char.ofNat_toNat]
  | itself bare shown => rw [List.singleton_append, unspelled, if_neg bare.2]

/-- No spelling shows a control code. -/
theorem visible (spells : Spells p c piece) : ∀ d ∈ piece, isControl d = false := by
  cases spells with
  | quote | backslash | null | tab | newline | carriageReturn =>
    exact List.forall_mem_cons.mpr ⟨rfl, List.forall_mem_singleton.mpr rfl⟩
  | number nameless hidden =>
    rw [spelledByNumber, List.forall_mem_cons, List.forall_mem_cons]
    exact ⟨rfl, rfl, fun d member => (braced_cases c.toNat d member).1⟩
  | itself bare shown =>
    rw [List.forall_mem_singleton, Bool.eq_false_iff]
    intro control
    rw [p.hides_control control] at shown
    cases shown

/-- A quote has a backslash in front of it. -/
theorem quote_cases (spells : Spells p c piece) : piece = ['\\', '"'] ∨ '"' ∉ piece := by
  cases spells with
  | quote => exact .inl rfl
  | backslash | null | tab | newline | carriageReturn => exact .inr (by decide)
  | number nameless hidden =>
    rw [spelledByNumber, List.mem_cons, List.mem_cons, not_or, not_or]
    exact .inr ⟨by decide, by decide, fun member => (braced_cases c.toNat _ member).2.1 rfl⟩
  | itself bare shown => exact .inr fun member => bare.1 (List.mem_singleton.mp member).symm

/-- The first unguarded quote of a text stands behind its spellings. -/
theorem cutUnguarded_append (spells : Spells p c piece) (rest : List Char) :
    cutUnguarded false (piece ++ rest) =
      (cutUnguarded false rest).map fun (before, after) => (piece ++ before, after) := by
  cases spells with
  | quote | backslash | null | tab | newline | carriageReturn => exact cutUnguarded_guarded _ rest
  | number nameless hidden =>
    have bare := fun d member => (braced_cases c.toNat d member).2
    rw [spelledByNumber, List.cons_append, List.cons_append, cutUnguarded_guarded,
      cutUnguarded_bare bare, Option.map_map]
    rfl
  | itself bare shown => exact cutUnguarded_bare (List.forall_mem_singleton.mpr bare) rest

end Spells

/-! ### Texts -/

variable (p : Printability)

/-- What stands between the quotes spells the characters of the text, one by one. -/
theorem spells_quotedBody (text : List Char) :
    ∃ pieces, List.Forall₂ (Spells p) text pieces ∧ quotedBody p '"' text = pieces.flatten :=
  ⟨text.map (quotedChar p '"'),
    List.forall₂_map_right_iff.mpr (List.forall₂_same.mpr fun c _ => spells_quotedChar p c),
    List.flatMap_def⟩

theorem quotedBody_visible (text : List Char) :
    ∀ d ∈ quotedBody p '"' text, isControl d = false := by
  intro d member
  obtain ⟨c, _, inside⟩ := List.mem_flatMap.mp member
  exact (spells_quotedChar p c).visible d inside

/-- The closing quote is the first one that no backslash guards, whatever follows. -/
theorem cutUnguarded_quotedBody (text after : List Char) :
    cutUnguarded false (quotedBody p '"' text ++ '"' :: after) =
      some (quotedBody p '"' text, after) := by
  induction text with
  | nil => rfl
  | cons c rest ih =>
    rw [quotedBody_cons, List.append_assoc, (spells_quotedChar p c).cutUnguarded_append, ih]
    rfl

theorem unspelled_quotedBody (text : List Char) :
    unspelled .between (quotedBody p '"' text) = some text := by
  induction text with
  | nil => rfl
  | cons c rest ih =>
    rw [quotedBody_cons, (spells_quotedChar p c).unspelled_append, ih]
    rfl

theorem quotedBy_toList (text : String) :
    (quotedBy p text).toList = '"' :: (quotedBody p '"' text.toList ++ ['"']) := by
  rw [quotedBy, String.toList_ofList]

/-- A quoted text shows no control code, so it stays on one line. -/
theorem quotedBy_visible (text : String) :
    ∀ d ∈ (quotedBy p text).toList, isControl d = false := by
  intro d member
  rw [quotedBy_toList, List.mem_cons, List.mem_append, List.mem_singleton] at member
  rcases member with rfl | inside | rfl
  · rfl
  · exact quotedBody_visible p text.toList d inside
  · rfl

/-- A quoted text stands for what was quoted. -/
theorem unquoted_quotedBy (text : String) : unquoted (quotedBy p text) = some text := by
  rw [unquoted, quotedBy_toList]
  simp only [cutUnguarded_quotedBody, unspelled_quotedBody, Option.map_some, String.ofList_toList]

variable {p}

theorem quotedBy_injective {first second : String}
    (same : quotedBy p first = quotedBy p second) : first = second := by
  have read := congrArg unquoted same
  rw [unquoted_quotedBy, unquoted_quotedBy] at read
  exact Option.some.inj read

/-- A quote inside has a backslash right in front of it. -/
theorem guarded_of_quotedBody {text before after : List Char}
    (split : quotedBody p '"' text = before ++ '"' :: after) : before.getLast? = some '\\' := by
  induction text generalizing before with
  | nil => cases before <;> cases split
  | cons c rest ih =>
    rw [quotedBody_cons] at split
    rcases List.append_eq_append_iff.mp split with ⟨extra, rfl, tail⟩ | ⟨extra, piece, tail⟩
    · rw [List.getLast?_append, ih tail]
      rfl
    · cases extra with
      | nil =>
        -- The rest would begin with a quote, and nothing would guard it.
        have guarded : ([] : List Char).getLast? = some '\\' := ih tail.symm
        cases guarded
      | cons d extra =>
        cases tail
        rcases (spells_quotedChar p c).quote_cases with guarded | bare
        · rw [guarded] at piece
          rcases List.cons_eq_append_iff.mp piece with ⟨_, same⟩ | ⟨more, rfl, same⟩
          · cases same
          · cases more with
            | nil => rfl
            | cons _ more => simp at same
        · rw [piece] at bare
          exact absurd (List.mem_append_right before List.mem_cons_self) bare

/-- So no quoted text has another one in it, behind a space: where a text ends with a
quoted one behind a space, it tells both. -/
theorem append_quotedBy_inj {x y : List Char} {first second : String}
    (same : x ++ ' ' :: (quotedBy p first).toList = y ++ ' ' :: (quotedBy p second).toList) :
    x = y ∧ first = second := by
  have within {m : List Char} {one other : String}
      (inside : (quotedBy p one).toList = m ++ ' ' :: (quotedBy p other).toList) : False := by
    rw [quotedBy_toList, quotedBy_toList] at inside
    cases m with
    | nil => cases inside
    | cons c m =>
      have body : quotedBody p '"' one.toList =
          (m ++ [' ']) ++ '"' :: quotedBody p '"' other.toList := by
        have closed : quotedBody p '"' one.toList ++ ['"'] =
            ((m ++ [' ']) ++ '"' :: quotedBody p '"' other.toList) ++ ['"'] := by
          simpa using (List.cons.inj inside).2
        exact List.append_cancel_right closed
      have last := guarded_of_quotedBody body
      rw [List.getLast?_concat] at last
      cases last
  rcases append_sep_eq_iff.mp same with ⟨rfl, rest⟩ | ⟨m, rfl, inside⟩ | ⟨m, rfl, inside⟩
  · exact ⟨rfl, quotedBy_injective (String.toList_inj.mp rest)⟩
  · exact (within inside).elim
  · exact (within inside).elim

end SymbolAtlas.Text
