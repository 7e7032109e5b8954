import Mathlib.Algebra.GroupWithZero.Nat
import SymbolAtlas.Proofs.Text.Sequence

/-! Decoding takes bytes apart from left to right: an encoded character is one
step, and a byte at which no character begins is a step by itself. The scanner
passes over unfinished sequences in larger pieces, and still gives the same steps.
Decoding the bytes of a text gives its characters back, one step for each. -/
namespace SymbolAtlas.Utf8

/-- The bytes take these steps, given by their widths. Which bytes encode a
character is left to the encoding. -/
inductive Decodes : List UInt8 → List Nat → Prop where
  | done : Decodes [] []
  | character (c : Char) {rest : List UInt8} {widths : List Nat} (after : Decodes rest widths) :
      Decodes (String.utf8EncodeChar c ++ rest) ((String.utf8EncodeChar c).length :: widths)
  | stray (b : UInt8) {rest : List UInt8} {widths : List Nat}
      (noCharacter : ∀ c, ¬ String.utf8EncodeChar c <+: b :: rest)
      (after : Decodes rest widths) : Decodes (b :: rest) (1 :: widths)

variable {bytes : List UInt8} {widths : List Nat}

/-- The steps of one piece of a scan. -/
def Piece.steps : Piece → List Nat
  | .scalar width => [width]
  | .illFormed length => List.replicate length 1

/-- The steps of all pieces of a scan. -/
def stepWidths (bytes : List UInt8) : List Nat := (pieces 0 bytes).flatMap Piece.steps

theorem pieces_skipping (skip : Nat) (bytes : List UInt8) :
    pieces skip bytes = pieces 0 (bytes.drop skip) := by
  induction bytes generalizing skip with
  | nil => cases skip <;> rfl
  | cons b rest ih =>
    cases skip with
    | zero => rfl
    | succ skip => exact ih skip

private theorem stepWidths_cons (b : UInt8) (rest : List UInt8) :
    stepWidths (b :: rest) =
      (scan b rest).steps ++ stepWidths (rest.drop ((scan b rest).length - 1)) := by
  rw [stepWidths, pieces, List.flatMap_cons, pieces_skipping, stepWidths]

theorem stepWidths_character (c : Char) (rest : List UInt8) :
    stepWidths (String.utf8EncodeChar c ++ rest) =
      (String.utf8EncodeChar c).length :: stepWidths rest := by
  cases encoded : String.utf8EncodeChar c with
  | nil => exact absurd encoded String.utf8EncodeChar_ne_nil
  | cons b tails =>
    have split : b :: (tails ++ rest) = String.utf8EncodeChar c ++ rest := by
      rw [encoded, List.cons_append]
    have scanned := scan_of_encoded split
    rw [encoded] at scanned
    rw [List.cons_append, stepWidths_cons, scanned]
    simp [Piece.steps, Piece.length]

private theorem stepWidths_tails (front back : List UInt8)
    (tails : ∀ t ∈ front, isTail t = true) :
    stepWidths (front ++ back) = List.replicate front.length 1 ++ stepWidths back := by
  induction front with
  | nil => rfl
  | cons t front ih =>
    rw [List.cons_append, stepWidths_cons, scan_of_tail (tails t (by simp))]
    simp [Piece.steps, Piece.length, List.replicate_succ,
      ih fun t member => tails t (List.mem_cons_of_mem _ member)]

theorem stepWidths_stray (b : UInt8) (rest : List UInt8)
    (noCharacter : ∀ c, ¬ String.utf8EncodeChar c <+: b :: rest) :
    stepWidths (b :: rest) = 1 :: stepWidths rest := by
  cases scanned : scan b rest with
  | scalar width =>
    obtain ⟨c, more, split, _⟩ := encoded_of_scan scanned
    exact absurd ⟨more, split.symm⟩ (noCharacter c)
  | illFormed length =>
    obtain ⟨front, back, rfl, rfl, tails⟩ := scan_illFormed scanned
    rw [stepWidths_cons, scanned, stepWidths_tails front back tails]
    simp [Piece.steps, Piece.length, List.replicate_succ]

/-- The scan gives a decoding of every string of bytes. -/
theorem decodes_stepWidths (bytes : List UInt8) : Decodes bytes (stepWidths bytes) := by
  induction length : bytes.length using Nat.strong_induction_on generalizing bytes with
  | h size ih =>
    cases bytes with
    | nil => exact .done
    | cons b rest =>
      by_cases found : ∃ c, String.utf8EncodeChar c <+: b :: rest
      · obtain ⟨c, more, split⟩ := found
        have shorter : more.length < size := by
          have joined := congrArg List.length split
          have nonempty := List.length_pos_iff.mpr (String.utf8EncodeChar_ne_nil (c := c))
          rw [List.length_append] at joined
          omega
        rw [← split, stepWidths_character]
        exact .character c (ih _ shorter more rfl)
      · have noCharacter := not_exists.mp found
        rw [stepWidths_stray b rest noCharacter]
        exact .stray b noCharacter (ih _ (by rw [← length, List.length_cons]; omega) rest rfl)

/-- Every string of bytes is decoded in one way, which is the one that the scan
finds. -/
theorem decodes_iff : Decodes bytes widths ↔ widths = stepWidths bytes := by
  constructor
  · intro decodes
    induction decodes with
    | done => rfl
    | character c after ih => rw [stepWidths_character, ih]
    | stray b noCharacter after ih => rw [stepWidths_stray b _ noCharacter, ih]
  · rintro rfl
    exact decodes_stepWidths bytes

/-- The steps use up the bytes. -/
theorem decodes_sum (decodes : Decodes bytes widths) : widths.sum = bytes.length := by
  induction decodes with
  | done => rfl
  | character c after ih => rw [List.sum_cons, ih, List.length_append]
  | stray b noCharacter after ih => rw [List.sum_cons, ih, List.length_cons, Nat.add_comm]

theorem decodes_width_bounds (decodes : Decodes bytes widths) :
    ∀ width ∈ widths, 1 ≤ width ∧ width ≤ 4 := by
  induction decodes with
  | done => simp
  | character c after ih =>
    intro width member
    rcases List.mem_cons.mp member with rfl | member
    · rw [String.length_utf8EncodeChar]
      exact ⟨c.utf8Size_pos, c.utf8Size_le_four⟩
    · exact ih width member
  | stray b noCharacter after ih =>
    intro width member
    rcases List.mem_cons.mp member with rfl | member
    · omega
    · exact ih width member

/-- The width of each character of a text. -/
def charWidths (text : List Char) : List Nat :=
  text.map fun c => (String.utf8EncodeChar c).length

theorem decodes_encode (text : List Char) : Decodes (encode text) (charWidths text) := by
  induction text with
  | nil => exact .done
  | cons c text ih => exact .character c ih

theorem sum_charWidths (text : List Char) : (charWidths text).sum = (encode text).length :=
  decodes_sum (decodes_encode text)

end SymbolAtlas.Utf8
