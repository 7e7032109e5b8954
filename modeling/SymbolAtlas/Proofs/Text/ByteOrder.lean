import Mathlib.Algebra.GroupWithZero.Nat
import Mathlib.Order.Monotone.Basic
import SymbolAtlas.Proofs.Text.Sequence

/-! Texts have one order, whether they are compared by their bytes or by their code
points. The bytes of a character are digits of its number, the most significant first,
and a longer sequence begins with a larger byte; so of two characters the one with the
smaller number has the smaller byte where their bytes first differ, and what comes after
the two makes no difference. -/
namespace SymbolAtlas.Utf8

/-- The order of two texts by their bytes: the first byte that differs decides, and the
end comes before every byte. -/
def byteOrder (s t : String) : Ordering := compare (encode s.toList) (encode t.toList)

/-- The order of two texts by the numbers of their code points. -/
def codePointOrder (s t : String) : Ordering :=
  compare (s.toList.map Char.toNat) (t.toList.map Char.toNat)

private theorem compare_eq_of_lt_iff {a b c d : Nat} (below : a < b ↔ c < d)
    (above : b < a ↔ d < c) : compare a b = compare c d := by
  rw [Nat.compare_eq_ite_lt, Nat.compare_eq_ite_lt]
  simp only [below, above]

private theorem compare_toNat (x y : UInt8) : compare x y = compare x.toNat y.toNat := by
  rcases Nat.lt_trichotomy x.toNat y.toNat with smaller | same | larger
  · rw [Nat.compare_eq_lt.mpr smaller]
    exact Std.compare_eq_lt.mpr (UInt8.lt_iff_toNat_lt.mpr smaller)
  · rw [Nat.compare_eq_eq.mpr same]
    exact Std.compare_eq_iff_eq.mpr (UInt8.toNat_inj.mp same)
  · rw [Nat.compare_eq_gt.mpr larger]
    exact Std.compare_eq_gt.mpr (UInt8.lt_iff_toNat_lt.mpr larger)

private theorem compare_ofNat {x y : Nat} (xSmall : x < 256) (ySmall : y < 256) :
    compare (UInt8.ofNat x) (UInt8.ofNat y) = compare x y := by
  rw [compare_toNat, UInt8.toNat_ofNat_of_lt' xSmall, UInt8.toNat_ofNat_of_lt' ySmall]

/-! ### Bytes as digits -/

/-- The last digits of a number to the base 64, the most significant first, each as a byte
that continues a sequence. -/
def tailBytes : Nat → Nat → List UInt8
  | 0, _ => []
  | count + 1, n => UInt8.ofNat (n / 64 ^ count % 64 + 0x80) :: tailBytes count n

/-- What the first byte of a sequence is counted from, by the number of bytes after it. -/
def leadBase : Nat → Nat
  | 0 => 0
  | 1 => 0xC0
  | 2 => 0xE0
  | 3 => 0xF0
  | _ => 0xF8

/-- The smallest number of a character that takes so many bytes after the first one. -/
def firstWith : Nat → Nat
  | 0 => 0
  | 1 => 0x80
  | 2 => 0x800
  | 3 => 0x10000
  | _ => 0x110000

/-- The first byte of the sequence for a number. -/
def leadByte (count n : Nat) : Nat := n / 64 ^ count + leadBase count

/-- A character is encoded as the digits of its number, as many as the number takes. -/
theorem encoded_digits (c : Char) :
    ∃ count < 4, (firstWith count ≤ c.toNat ∧ c.toNat < firstWith (count + 1)) ∧
      String.utf8EncodeChar c =
        UInt8.ofNat (leadByte count c.toNat) :: tailBytes count c.toNat := by
  have bound : c.val.toNat < 0x110000 := by
    rcases c.valid with low | ⟨_, high⟩
    · omega
    · exact high
  unfold Char.toNat String.utf8EncodeChar
  generalize c.val.toNat = n at bound
  dsimp only
  split_ifs with one two three
  · refine ⟨0, by decide, ⟨Nat.zero_le n, Nat.lt_succ_of_le one⟩, ?_⟩
    simp [leadByte, leadBase, tailBytes]
  · refine ⟨1, by decide, ⟨Nat.lt_of_not_le one, Nat.lt_succ_of_le two⟩, ?_⟩
    have lead : n / 64 % 32 = n / 64 := by omega
    simp [leadByte, leadBase, tailBytes, lead]
  · refine ⟨2, by decide, ⟨Nat.lt_of_not_le two, Nat.lt_succ_of_le three⟩, ?_⟩
    have lead : n / 4096 % 16 = n / 4096 := by omega
    simp [leadByte, leadBase, tailBytes, lead]
  · refine ⟨3, by decide, ⟨Nat.lt_of_not_le three, bound⟩, ?_⟩
    have lead : n / 262144 % 8 = n / 262144 := by omega
    simp [leadByte, leadBase, tailBytes, lead]

theorem isTail_of_mem_tailBytes {count n : Nat} {t : UInt8} (member : t ∈ tailBytes count n) :
    isTail t = true := by
  induction count with
  | zero => cases member
  | succ count ih =>
    rcases List.mem_cons.mp member with rfl | later
    · rw [isTail_iff, UInt8.toNat_ofNat_of_lt' (by show _ < 256; omega)]
      omega
    · exact ih later

/-- All bytes of a character but the first one continue a sequence. -/
theorem isTail_of_encoded {c : Char} {b t : UInt8} {tails : List UInt8}
    (encoded : String.utf8EncodeChar c = b :: tails) (member : t ∈ tails) : isTail t = true := by
  obtain ⟨count, _, _, digits⟩ := encoded_digits c
  rw [digits] at encoded
  rw [← (List.cons.inj encoded).2] at member
  exact isTail_of_mem_tailBytes member

theorem leadBase_mono : Monotone leadBase :=
  monotone_nat_of_le_succ fun
    | 0 | 1 | 2 | 3 => by decide
    | _ + 4 => Nat.le_refl _

theorem firstWith_mono : Monotone firstWith :=
  monotone_nat_of_le_succ fun
    | 0 | 1 | 2 | 3 => by decide
    | _ + 4 => Nat.le_refl _

/-- The first byte tells how many follow it. -/
theorem leadByte_lt {count n : Nat} (known : count < 4) (below : n < firstWith (count + 1)) :
    leadByte count n < leadBase (count + 1) := by
  unfold leadByte
  match count, known with
  | 0, _ | 1, _ | 2, _ | 3, _ =>
    simp only [firstWith, leadBase] at *
    omega

theorem leadBase_le_leadByte {few many : Nat} (n : Nat) (fewer : few < many) :
    leadBase (few + 1) ≤ leadByte many n :=
  (leadBase_mono fewer).trans (Nat.le_add_left _ _)

/-- The last digit decides about two numbers where the others are the same. -/
private theorem compare_lastDigit (m n : Nat) :
    (compare (m / 64) (n / 64)).then
      (compare (UInt8.ofNat (m % 64 + 0x80)) (UInt8.ofNat (n % 64 + 0x80))) = compare m n := by
  rw [compare_ofNat (by omega) (by omega)]
  rcases Nat.lt_trichotomy (m / 64) (n / 64) with smaller | same | larger
  · have whole : m < n := by omega
    rw [Nat.compare_eq_lt.mpr smaller, Nat.compare_eq_lt.mpr whole]
    rfl
  · rw [Nat.compare_eq_eq.mpr same, Ordering.eq_then]
    exact compare_eq_of_lt_iff (by omega) (by omega)
  · have whole : n < m := by omega
    rw [Nat.compare_eq_gt.mpr larger, Nat.compare_eq_gt.mpr whole]
    rfl

/-- Digit by digit a number compares as it does as a whole, and then what follows decides. -/
theorem compare_tailBytes (count m n : Nat) (xs ys : List UInt8) :
    (compare (m / 64 ^ count) (n / 64 ^ count)).then
        (compare (tailBytes count m ++ xs) (tailBytes count n ++ ys)) =
      (compare m n).then (compare xs ys) := by
  induction count with
  | zero => simp [tailBytes]
  | succ count ih =>
    have digit := compare_lastDigit (m / 64 ^ count) (n / 64 ^ count)
    rw [Nat.div_div_eq_div_mul, Nat.div_div_eq_div_mul, ← Nat.pow_succ] at digit
    rw [tailBytes, tailBytes, List.cons_append, List.cons_append, List.compare_cons_cons,
      ← Ordering.then_assoc, digit, ih]

/-- Two characters compare by their numbers, and what follows them decides where these
are the same. -/
theorem compare_encoded (c d : Char) (xs ys : List UInt8) :
    compare (String.utf8EncodeChar c ++ xs) (String.utf8EncodeChar d ++ ys) =
      (compare c.toNat d.toNat).then (compare xs ys) := by
  obtain ⟨few, fewKnown, ⟨cFirst, cBelow⟩, cBytes⟩ := encoded_digits c
  obtain ⟨many, manyKnown, ⟨dFirst, dBelow⟩, dBytes⟩ := encoded_digits d
  have cLead := leadByte_lt fewKnown cBelow
  have dLead := leadByte_lt manyKnown dBelow
  have small : ∀ count < 4, leadBase (count + 1) < 256 := by decide
  rw [cBytes, dBytes, List.cons_append, List.cons_append, List.compare_cons_cons,
    compare_ofNat (cLead.trans (small few fewKnown)) (dLead.trans (small many manyKnown))]
  rcases Nat.lt_trichotomy few many with fewer | rfl | more
  · have leads := Nat.lt_of_lt_of_le cLead (leadBase_le_leadByte d.toNat fewer)
    have numbers := Nat.lt_of_lt_of_le cBelow ((firstWith_mono fewer).trans dFirst)
    rw [Nat.compare_eq_lt.mpr leads, Nat.compare_eq_lt.mpr numbers]
    rfl
  · have leads : compare (leadByte few c.toNat) (leadByte few d.toNat) =
        compare (c.toNat / 64 ^ few) (d.toNat / 64 ^ few) :=
      compare_eq_of_lt_iff Nat.add_lt_add_iff_right Nat.add_lt_add_iff_right
    rw [leads, compare_tailBytes]
  · have leads := Nat.lt_of_lt_of_le dLead (leadBase_le_leadByte c.toNat more)
    have numbers := Nat.lt_of_lt_of_le dBelow ((firstWith_mono more).trans cFirst)
    rw [Nat.compare_eq_gt.mpr leads, Nat.compare_eq_gt.mpr numbers]
    rfl

/-- Bytes of texts compare as the numbers of their characters do. -/
theorem compare_encode (s t : List Char) :
    compare (encode s) (encode t) = compare (s.map Char.toNat) (t.map Char.toNat) := by
  have begun : ∀ (c : Char) (rest : List Char), ∃ b bytes, encode (c :: rest) = b :: bytes := by
    intro c rest
    refine List.exists_cons_of_ne_nil fun nothing => ?_
    exact String.utf8EncodeChar_ne_nil (List.append_eq_nil_iff.mp nothing).1
  induction s generalizing t with
  | nil =>
    cases t with
    | nil => rfl
    | cons d t =>
      obtain ⟨b, bytes, encoded⟩ := begun d t
      rw [encoded]
      rfl
  | cons c s ih =>
    cases t with
    | nil =>
      obtain ⟨b, bytes, encoded⟩ := begun c s
      rw [encoded]
      rfl
    | cons d t =>
      rw [List.map_cons, List.map_cons, List.compare_cons_cons, ← ih]
      exact compare_encoded c d (encode s) (encode t)

theorem byteOrder_eq_codePointOrder (s t : String) : byteOrder s t = codePointOrder s t :=
  compare_encode s.toList t.toList

private theorem compare_codePoints_eq_lt_iff (s t : List Char) :
    compare (s.map Char.toNat) (t.map Char.toNat) = .lt ↔ s < t := by
  induction s generalizing t with
  | nil =>
    cases t with
    | nil => simp
    | cons d t => simp
  | cons c s ih =>
    cases t with
    | nil => simp
    | cons d t =>
      rw [List.map_cons, List.map_cons, List.compare_cons_cons, Ordering.then_eq_lt, ih,
        Nat.compare_eq_lt, Nat.compare_eq_eq, Char.toNat_inj, List.cons_lt_cons_iff]
      rfl

/-- The order of texts is that of their code points. -/
theorem compare_eq_codePointOrder (s t : String) : compare s t = codePointOrder s t := by
  have below : ∀ {s t : String}, codePointOrder s t = .lt ↔ s < t := by
    intro s t
    exact compare_codePoints_eq_lt_iff s.toList t.toList
  show compareOfLessAndEq s t = codePointOrder s t
  cases decided : codePointOrder s t with
  | lt => exact if_pos (below.mp decided)
  | eq =>
    have same : s = t := by
      have numbers := Std.LawfulEqOrd.eq_of_compare decided
      exact String.toList_inj.mp (List.map_injective_iff.mpr (fun _ _ => Char.toNat_inj.mp) numbers)
    subst same
    rw [compareOfLessAndEq, if_neg (String.lt_irrefl s), if_pos rfl]
  | gt =>
    have notBelow : ¬ s < t := by
      rw [← below, decided]
      simp
    have different : s ≠ t := by
      rintro rfl
      rw [codePointOrder, Std.ReflOrd.compare_self] at decided
      cases decided
    rw [compareOfLessAndEq, if_neg notBelow, if_neg different]

end SymbolAtlas.Utf8
