import Mathlib.Data.List.Basic
import Mathlib.Data.List.TakeWhile
import Mathlib.Tactic.SplitIfs
import SymbolAtlas.Text.Utf8

/-! The scanner decides by ranges of bytes what begins at one place. The meaning
it is held to is the encoding of characters, which knows nothing of those ranges:
a whole sequence is found exactly where the bytes begin with an encoded character,
and an unfinished one is followed by bytes at which no character can begin. -/
namespace SymbolAtlas.Utf8

/-- The first two bytes of a sequence of `width` bytes: the second lies in the
range that the first asks for. -/
def Opens (width : Nat) (b second : UInt8) : Prop :=
  ∃ lead, lead? b = some lead ∧ lead.width = width ∧
    lead.low.toNat ≤ second.toNat ∧ second.toNat ≤ lead.high.toNat

private theorem lead?_toNat (b : UInt8) :
    lead? b =
      if 0xC2 ≤ b.toNat ∧ b.toNat ≤ 0xDF then some ⟨2, 0x80, 0xBF⟩
      else if b.toNat = 0xE0 then some ⟨3, 0xA0, 0xBF⟩
      else if b.toNat = 0xED then some ⟨3, 0x80, 0x9F⟩
      else if 0xE1 ≤ b.toNat ∧ b.toNat ≤ 0xEF then some ⟨3, 0x80, 0xBF⟩
      else if b.toNat = 0xF0 then some ⟨4, 0x90, 0xBF⟩
      else if 0xF1 ≤ b.toNat ∧ b.toNat ≤ 0xF3 then some ⟨4, 0x80, 0xBF⟩
      else if b.toNat = 0xF4 then some ⟨4, 0x80, 0x8F⟩
      else none := by
  simp only [lead?, UInt8.le_iff_toNat_le, ← UInt8.toNat_inj]
  rfl

theorem opens_two_iff (b second : UInt8) :
    Opens 2 b second ↔ (0xC2 ≤ b.toNat ∧ b.toNat ≤ 0xDF) ∧
      0x80 ≤ second.toNat ∧ second.toNat ≤ 0xBF := by
  simp only [Opens, lead?_toNat]
  split_ifs <;> simp <;> omega

/-- The ten bits of both bytes are neither those of a shorter sequence nor those
of a surrogate. -/
theorem opens_three_iff (b second : UInt8) :
    Opens 3 b second ↔ (0xE0 ≤ b.toNat ∧ b.toNat ≤ 0xEF) ∧
      (0x80 ≤ second.toNat ∧ second.toNat ≤ 0xBF) ∧
      0x20 ≤ (b.toNat - 0xE0) * 64 + (second.toNat - 0x80) ∧
      ¬ (0x360 ≤ (b.toNat - 0xE0) * 64 + (second.toNat - 0x80) ∧
        (b.toNat - 0xE0) * 64 + (second.toNat - 0x80) < 0x380) := by
  simp only [Opens, lead?_toNat]
  split_ifs <;> simp <;> omega

/-- The nine bits of both bytes are neither those of a shorter sequence nor
beyond the last code point. -/
theorem opens_four_iff (b second : UInt8) :
    Opens 4 b second ↔ (0xF0 ≤ b.toNat ∧ b.toNat ≤ 0xF4) ∧
      (0x80 ≤ second.toNat ∧ second.toNat ≤ 0xBF) ∧
      0x10 ≤ (b.toNat - 0xF0) * 64 + (second.toNat - 0x80) ∧
      (b.toNat - 0xF0) * 64 + (second.toNat - 0x80) < 0x110 := by
  simp only [Opens, lead?_toNat]
  split_ifs <;> simp <;> omega

theorem opens_bounds {width : Nat} {b second : UInt8} (opens : Opens width b second) :
    2 ≤ width ∧ width ≤ 4 ∧ 0xC2 ≤ b.toNat ∧ 0x80 ≤ second.toNat ∧ second.toNat ≤ 0xBF := by
  obtain ⟨lead, found, rfl, low, high⟩ := opens
  rw [lead?_toNat] at found
  split_ifs at found <;> cases found <;> simp_all <;> omega

theorem isTail_iff (b : UInt8) : isTail b = true ↔ 0x80 ≤ b.toNat ∧ b.toNat ≤ 0xBF := by
  simp [isTail, UInt8.le_iff_toNat_le]

private theorem taken_while_full_iff {α : Type} (p : α → Bool) (n : Nat) (xs : List α) :
    ((xs.take n).takeWhile p).length = n ↔
      ∃ front back, xs = front ++ back ∧ front.length = n ∧ ∀ x ∈ front, p x = true := by
  constructor
  · intro full
    have whole : (xs.take n).takeWhile p = xs.take n :=
      (List.takeWhile_prefix p).eq_of_length_le (by rw [full]; exact List.length_take_le n xs)
    rw [whole] at full
    exact ⟨xs.take n, xs.drop n, (List.take_append_drop n xs).symm, full,
      List.takeWhile_eq_self_iff.mp whole⟩
  · rintro ⟨front, back, rfl, rfl, all⟩
    rw [List.take_left, List.takeWhile_eq_self_iff.mpr all]

/-- A whole sequence is one ASCII byte, or a lead byte with as many further bytes
as it asks for. -/
theorem scan_scalar_iff (b : UInt8) (rest : List UInt8) (width : Nat) :
    scan b rest = .scalar width ↔
      (b.toNat < 0x80 ∧ width = 1) ∨
      ∃ second tails more, rest = second :: (tails ++ more) ∧ Opens width b second ∧
        tails.length = width - 2 ∧ ∀ t ∈ tails, isTail t = true := by
  unfold scan
  by_cases ascii : b < 0x80
  · have small : b.toNat < 0x80 := UInt8.lt_iff_toNat_lt.mp ascii
    rw [if_pos ascii]
    constructor
    · rintro ⟨⟩
      exact .inl ⟨small, rfl⟩
    · rintro (⟨_, rfl⟩ | ⟨second, tails, more, _, opens, _⟩)
      · rfl
      · have wide := (opens_bounds opens).2.2.1
        omega
  · have large : ¬ b.toNat < 0x80 := fun small => ascii (UInt8.lt_iff_toNat_lt.mpr small)
    rw [if_neg ascii]
    simp only [large, false_and, false_or]
    split
    · rename_i lead second more found
      simp only [UInt8.le_iff_toNat_le]
      constructor
      · intro scanned
        split_ifs at scanned with inside whole
        obtain rfl := Piece.scalar.inj scanned
        obtain ⟨tails, back, rfl, length, all⟩ := (taken_while_full_iff ..).mp whole
        exact ⟨second, tails, back, rfl, ⟨lead, found, rfl, inside⟩, length, all⟩
      · rintro ⟨second', tails, back, split, ⟨lead', found', rfl, inside⟩, length, all⟩
        obtain ⟨rfl, rfl⟩ := List.cons.inj split
        obtain rfl := Option.some.inj (found.symm.trans found')
        rw [if_pos inside, if_pos ((taken_while_full_iff ..).mpr ⟨tails, back, rfl, length, all⟩)]
    · rename_i unmatched
      constructor
      · intro scanned
        cases scanned
      · rintro ⟨second, tails, more, rfl, ⟨lead, found, _⟩, _⟩
        exact (unmatched lead second (tails ++ more) found rfl).elim

/-- An unfinished sequence is one byte and then only bytes that continue
sequences. -/
theorem scan_illFormed {b : UInt8} {rest : List UInt8} {length : Nat}
    (scanned : scan b rest = .illFormed length) :
    ∃ front back, rest = front ++ back ∧ length = front.length + 1 ∧
      ∀ t ∈ front, isTail t = true := by
  unfold scan at scanned
  split at scanned
  · cases scanned
  · split at scanned
    · rename_i lead second more found
      dsimp only at scanned
      split_ifs at scanned with inside whole
      · obtain rfl := Piece.illFormed.inj scanned
        have short := (List.takeWhile_prefix isTail (l := more.take (lead.width - 2))).trans
          (List.take_prefix _ more)
        obtain ⟨back, joined⟩ := short
        refine ⟨second :: (more.take (lead.width - 2)).takeWhile isTail, back, ?_, ?_, ?_⟩
        · rw [List.cons_append, joined]
        · rw [List.length_cons]
          omega
        · intro t member
          rcases List.mem_cons.mp member with rfl | member
          · have opens : Opens lead.width b t :=
              ⟨lead, found, rfl, by simpa only [UInt8.le_iff_toNat_le] using inside⟩
            exact (isTail_iff t).mpr (opens_bounds opens).2.2.2
          · exact List.mem_takeWhile_imp member
      · obtain rfl := Piece.illFormed.inj scanned
        exact ⟨[], second :: more, rfl, rfl, by simp⟩
    · obtain rfl := Piece.illFormed.inj scanned
      exact ⟨[], _, rfl, rfl, by simp⟩

private theorem character_number_bounds (c : Char) :
    c.val.toNat < 0xD800 ∨ 0xDFFF < c.val.toNat ∧ c.val.toNat < 0x110000 := c.valid

private theorem exists_character (number : Nat)
    (valid : number < 0xD800 ∨ 0xDFFF < number ∧ number < 0x110000) :
    ∃ c : Char, c.val.toNat = number :=
  ⟨Char.ofNatAux number valid, rfl⟩

/-- Bytes that begin with an encoded character are scanned as that character,
whatever follows it. -/
theorem scan_of_encoded {c : Char} {b : UInt8} {rest more : List UInt8}
    (split : b :: rest = String.utf8EncodeChar c ++ more) :
    scan b rest = .scalar (String.utf8EncodeChar c).length := by
  have bounds := character_number_bounds c
  rw [scan_scalar_iff]
  revert split
  unfold String.utf8EncodeChar
  generalize c.val.toNat = number at bounds
  dsimp only
  split
  · rintro ⟨⟩
    left
    simp only [UInt8.toNat_ofNat', List.length_singleton, and_true]
    omega
  · split
    · rintro ⟨⟩
      right
      refine ⟨_, [], more, rfl, (opens_two_iff _ _).mpr ?_, rfl, by simp⟩
      simp only [UInt8.toNat_ofNat']
      omega
    · split
      · rintro ⟨⟩
        right
        refine ⟨_, [_], more, rfl, (opens_three_iff _ _).mpr ?_, rfl, ?_⟩
        · simp only [UInt8.toNat_ofNat']
          omega
        · simp only [List.mem_singleton, forall_eq, isTail_iff, UInt8.toNat_ofNat']
          omega
      · rintro ⟨⟩
        right
        refine ⟨_, [_, _], more, rfl, (opens_four_iff _ _).mpr ?_, rfl, ?_⟩
        · simp only [UInt8.toNat_ofNat']
          omega
        · simp only [List.mem_cons, List.not_mem_nil, or_false, forall_eq_or_imp, forall_eq,
            isTail_iff, UInt8.toNat_ofNat']
          omega

/-- A whole sequence encodes a character: its bits number one that is neither a
surrogate nor beyond the last code point, and that no shorter sequence encodes. -/
theorem encoded_of_scan {b : UInt8} {rest : List UInt8} {width : Nat}
    (scanned : scan b rest = .scalar width) :
    ∃ c more, b :: rest = String.utf8EncodeChar c ++ more ∧
      (String.utf8EncodeChar c).length = width := by
  rcases (scan_scalar_iff b rest width).mp scanned with
    ⟨small, rfl⟩ | ⟨second, tails, more, rfl, opens, length, all⟩
  · obtain ⟨c, number⟩ := exists_character b.toNat (by omega)
    refine ⟨c, rest, ?_⟩
    rw [String.utf8EncodeChar, number, if_pos (by omega)]
    simp
  · obtain ⟨lower, upper, wide, secondLow, secondHigh⟩ := opens_bounds opens
    have widths : width = 2 ∨ width = 3 ∨ width = 4 := by omega
    rcases widths with rfl | rfl | rfl
    · obtain rfl := List.length_eq_zero_iff.mp length
      have range := (opens_two_iff b second).mp opens
      obtain ⟨c, number⟩ := exists_character
        ((b.toNat - 0xC0) * 64 + (second.toNat - 0x80)) (by omega)
      refine ⟨c, more, ?_⟩
      rw [String.utf8EncodeChar, number, if_neg (by omega), if_pos (by omega)]
      simp only [List.nil_append, List.cons_append, List.cons.injEq, ← UInt8.toNat_inj,
        UInt8.toNat_ofNat', and_true, List.length_cons, List.length_nil]
      omega
    · obtain ⟨third, rfl⟩ := List.length_eq_one_iff.mp length
      have range := (opens_three_iff b second).mp opens
      have thirdRange := (isTail_iff third).mp (all third (by simp))
      obtain ⟨c, number⟩ := exists_character
        ((b.toNat - 0xE0) * 4096 + (second.toNat - 0x80) * 64 + (third.toNat - 0x80)) (by omega)
      refine ⟨c, more, ?_⟩
      rw [String.utf8EncodeChar, number, if_neg (by omega), if_neg (by omega), if_pos (by omega)]
      simp only [List.nil_append, List.cons_append, List.cons.injEq, ← UInt8.toNat_inj,
        UInt8.toNat_ofNat', and_true, List.length_cons, List.length_nil]
      omega
    · obtain ⟨third, fourth, rfl⟩ := List.length_eq_two.mp length
      have range := (opens_four_iff b second).mp opens
      have thirdRange := (isTail_iff third).mp (all third (by simp))
      have fourthRange := (isTail_iff fourth).mp (all fourth (by simp))
      obtain ⟨c, number⟩ := exists_character
        ((b.toNat - 0xF0) * 262144 + (second.toNat - 0x80) * 4096 +
          (third.toNat - 0x80) * 64 + (fourth.toNat - 0x80)) (by omega)
      refine ⟨c, more, ?_⟩
      rw [String.utf8EncodeChar, number, if_neg (by omega), if_neg (by omega),
        if_neg (by omega)]
      simp only [List.nil_append, List.cons_append, List.cons.injEq, ← UInt8.toNat_inj,
        UInt8.toNat_ofNat', and_true, List.length_cons, List.length_nil]
      omega

/-- A byte that continues sequences begins none. -/
theorem scan_of_tail {t : UInt8} (tail : isTail t = true) (rest : List UInt8) :
    scan t rest = .illFormed 1 := by
  have range := (isTail_iff t).mp tail
  have notAscii : ¬ t < 0x80 := by
    rw [UInt8.lt_iff_toNat_lt]
    exact Nat.not_lt.mpr range.1
  have noLead : lead? t = none := by
    rw [lead?_toNat]
    split_ifs <;> first | rfl | omega
  simp [scan, notAscii, noLead]

end SymbolAtlas.Utf8
