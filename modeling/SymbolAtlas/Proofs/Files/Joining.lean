import SymbolAtlas.Proofs.Files.PositionLookup
import SymbolAtlas.Proofs.Text.ByteOrder

/-! The index of two files, one after the other, is put together from the indices of
both. The seam does not have to lie between characters: the first file may end in the
middle of a sequence, as long as the second does not go on with it. What was cut off is
then decoded byte by byte, and it makes no difference to it what comes next. -/
namespace SymbolAtlas
open Utf8

variable {a b : List UInt8}

/-- Decoding goes on behind the seam as it does from the beginning, where no character
lies across it. -/
theorem Utf8.Decodes.append {front back : List Nat} (first : Decodes a front)
    (second : Decodes b back) (seam : ∀ t ∈ b.head?, isTail t = false) :
    Decodes (a ++ b) (front ++ back) := by
  induction first with
  | done => exact second
  | character c after ih =>
    rw [List.append_assoc, List.cons_append]
    exact .character c ih
  | @stray x left widths noCharacter after ih =>
    refine .stray x (fun c begins => ?_) ih
    obtain ⟨following, split⟩ : String.utf8EncodeChar c <+: (x :: left) ++ b := begins
    rcases List.append_eq_append_iff.mp split with ⟨more, within, _⟩ | ⟨across, encoded, rest⟩
    · exact noCharacter c ⟨more, within.symm⟩
    · cases across with
      | nil =>
        rw [List.append_nil] at encoded
        exact noCharacter c ⟨[], by rw [encoded, List.append_nil]⟩
      | cons t others =>
        -- The character would go on with the first byte behind the seam.
        have continued : isTail t = true :=
          isTail_of_encoded encoded (List.mem_append_right _ List.mem_cons_self)
        have refused := seam t (by rw [rest]; rfl)
        rw [continued] at refused
        cases refused

namespace PositionIndex

/-- An index is put together from the indices of two parts. -/
structure Joins (whole front back : PositionIndex) : Prop where
  charCount : whole.charCount.toNat = front.charCount.toNat + back.charCount.toNat
  byteLength : whole.byteLength.toNat = front.byteLength.toNat + back.byteLength.toNat
  /-- Up to the end of the first part its index answers. -/
  before : ∀ ordinal ≤ front.charCount,
    ∃ offset, front.byteOffset ordinal = .ok offset ∧ whole.byteOffset ordinal = .ok offset
  /-- From there on the index of the second part answers, which counts from its beginning. -/
  behind : ∀ ordinal, front.charCount ≤ ordinal →
    ordinal.toNat ≤ front.charCount.toNat + back.charCount.toNat →
    ∃ inner offset, back.byteOffset (ordinal - front.charCount) = .ok inner ∧
      whole.byteOffset ordinal = .ok offset ∧
      offset.toNat = front.byteLength.toNat + inner.toNat

theorem Represents.joins {whole front back : PositionIndex} {first second : List Nat}
    (represents : whole.Represents (first ++ second)) (representsFront : front.Represents first)
    (representsBack : back.Represents second) : whole.Joins front back where
  charCount := by
    rw [represents.charCount, representsFront.charCount, representsBack.charCount,
      List.length_append]
  byteLength := by
    rw [represents.byteLength, representsFront.byteLength, representsBack.byteLength,
      List.sum_append]
  before := by
    intro ordinal inside
    rw [UInt32.le_iff_toNat_le, representsFront.charCount] at inside
    obtain ⟨offset, answered, value⟩ := representsFront.byteOffset_eq inside
    refine ⟨offset, answered, represents.byteOffset_eq_ok_iff.mpr ⟨?_, ?_⟩⟩
    · rw [List.length_append]
      exact Nat.le_add_right_of_le inside
    · rw [value, List.take_append_of_le_length inside]
  behind := by
    intro ordinal passed inside
    have apart := UInt32.toNat_sub_of_le ordinal front.charCount passed
    rw [UInt32.le_iff_toNat_le, representsFront.charCount] at passed
    rw [representsFront.charCount] at apart
    rw [representsFront.charCount, representsBack.charCount] at inside
    have insideBack : (ordinal - front.charCount).toNat ≤ second.length := by omega
    obtain ⟨inner, answered, value⟩ := representsBack.byteOffset_eq insideBack
    rw [← List.length_append] at inside
    obtain ⟨offset, answeredWhole, valueWhole⟩ := represents.byteOffset_eq inside
    refine ⟨inner, offset, answered, answeredWhole, ?_⟩
    rw [valueWhole, value, apart, representsFront.byteLength, List.take_append,
      List.take_of_length_le passed, List.sum_append]

/-- The index of two files that follow one another is put together from theirs, provided
that the second does not begin with a byte that continues a sequence. -/
theorem index_of_joined (small : (a ++ b).length < UInt32.size)
    (seam : ∀ first ∈ b.head?, ¬ (0x80 ≤ first ∧ first ≤ 0xBF)) :
    ∃ whole front back, ofContent (a ++ b) = .ok whole ∧ ofContent a = .ok front ∧
      ofContent b = .ok back ∧ whole.Joins front back := by
  have closed : ∀ t ∈ b.head?, isTail t = false := by
    intro t member
    simpa [isTail] using seam t member
  have bounds := small
  rw [List.length_append] at bounds
  have front := decodes_stepWidths a
  have back := decodes_stepWidths b
  obtain ⟨whole, built, represents⟩ := ofContent_represents small (front.append back closed)
  obtain ⟨ofFront, builtFront, representsFront⟩ := ofContent_represents (by omega) front
  obtain ⟨ofBack, builtBack, representsBack⟩ := ofContent_represents (by omega) back
  exact ⟨whole, ofFront, ofBack, built, builtFront, builtBack,
    represents.joins representsFront representsBack⟩

/-- Where the second file goes on with a sequence, a code point lies across the seam. -/
example : (ofContent ([0xC3] ++ [0xA9])).map charCount = .ok 1 ∧
    (ofContent [0xC3]).map charCount = .ok 1 ∧ (ofContent [0xA9]).map charCount = .ok 1 :=
  ⟨rfl, rfl, rfl⟩

/-- The first file ends in the first two bytes of three. -/
theorem index_of_joined_cut :
    let a : List UInt8 := [0x61, 0xE2, 0x82]
    let b : List UInt8 := [0xC3, 0xA9]
    (a ++ b).length < UInt32.size ∧ (∀ first ∈ b.head?, ¬ (0x80 ≤ first ∧ first ≤ 0xBF)) ∧
      ∃ whole front back, ofContent (a ++ b) = .ok whole ∧ ofContent a = .ok front ∧
        ofContent b = .ok back ∧ whole.Joins front back ∧ whole.charCount = 4 := by
  intro a b
  have small : (a ++ b).length < UInt32.size := by decide
  have seam : ∀ first ∈ b.head?, ¬ (0x80 ≤ first ∧ first ≤ 0xBF) := by
    rintro first ⟨⟩
    decide
  obtain ⟨whole, front, back, built, builtFront, builtBack, joins⟩ := index_of_joined small seam
  have counted : (ofContent (a ++ b)).map charCount = .ok 4 := by cbv
  rw [built] at counted
  exact ⟨small, seam, whole, front, back, built, builtFront, builtBack, joins,
    Except.ok.inj counted⟩

end PositionIndex
end SymbolAtlas
