import Mathlib.Algebra.BigOperators.Group.List.Basic
import SymbolAtlas.Proofs.Files.PositionLookup

/-! An index is the sequence of its file's widths, written sparsely. The table rises with
the code points, by as much as a sequence can have beyond one byte, and ends where the
counters say; this order is what a search by halves rests on. Nothing of the widths is
lost: the answers of an index are their partial sums, so files that are decoded to the
same widths are the only ones that share an index. -/
namespace SymbolAtlas.PositionIndex
open Utf8

variable {index : PositionIndex} {widths : List Nat}

/-- What the entries of the table have accumulated, in order. -/
def accumulated (index : PositionIndex) : List Nat :=
  index.wide.toList.map fun entry => entry.2.toNat

/-- The table of an index is in order and agrees with the counters. -/
structure WellFormed (index : PositionIndex) : Prop where
  ascending : index.wide.toList.Pairwise fun entry later =>
    entry.1 < later.1 ∧ entry.2 < later.2
  inside : ∀ entry ∈ index.wide, entry.1 < index.charCount
  /-- Beginning with nothing, each entry adds what two, three or four bytes have beyond one. -/
  growth : (0 :: index.accumulated).IsChain fun before after =>
    before + 1 ≤ after ∧ after ≤ before + 3
  /-- The last entry holds all bytes beyond one for each code point. -/
  total : index.charCount.toNat + index.accumulated.getLast?.getD 0 = index.byteLength.toNat

/-! ### The order of the table -/

theorem wideEntries_ascend (ordinal before : Nat) (widths : List Nat) :
    (wideEntries ordinal before widths).Pairwise fun entry later =>
      entry.1 < later.1 ∧ entry.2 < later.2 := by
  induction widths generalizing ordinal before with
  | nil => exact .nil
  | cons width rest ih =>
    rw [wideEntries]
    split
    · refine List.pairwise_cons.mpr ⟨fun later member => ?_, ih _ _⟩
      obtain ⟨⟨further, _⟩, more, _⟩ := mem_wideEntries member
      exact ⟨further, more⟩
    · exact ih _ _

theorem wideEntries_grow (ordinal before : Nat) (atMost : ∀ width ∈ widths, width ≤ 4) :
    (before :: (wideEntries ordinal before widths).map (·.2)).IsChain fun before after =>
      before + 1 ≤ after ∧ after ≤ before + 3 := by
  induction widths generalizing ordinal before with
  | nil => exact .singleton before
  | cons width rest ih =>
    obtain ⟨bound, bounds⟩ := List.forall_mem_cons.mp atMost
    rw [wideEntries]
    split
    · refine List.isChain_cons_cons.mpr ⟨?_, ih _ _ bounds⟩
      dsimp only
      omega
    · exact ih _ _ bounds

namespace Represents

/-- The words of an entry are its numbers. -/
theorem toNat_word32Entry (represents : index.Represents widths) {entry : Nat × Nat}
    (member : entry ∈ wideEntries 0 0 widths) :
    (word32Entry entry).1.toNat = entry.1 ∧ (word32Entry entry).2.toNat = entry.2 := by
  have small := represents.small
  have total := represents.surplus_bound
  have range := mem_wideEntries member
  exact ⟨UInt32.toNat_ofNat_of_lt' (by omega), UInt32.toNat_ofNat_of_lt' (by omega)⟩

theorem accumulated_eq (represents : index.Represents widths) :
    index.accumulated = (wideEntries 0 0 widths).map (·.2) := by
  rw [accumulated, represents.wide, List.map_map]
  exact List.map_congr_left fun _ member => (represents.toNat_word32Entry member).2

/-- The index of code points of four bytes at most is in order. -/
theorem wellFormed (represents : index.Represents widths) (atMost : ∀ width ∈ widths, width ≤ 4) :
    index.WellFormed where
  ascending := by
    rw [represents.wide, List.pairwise_map]
    refine (wideEntries_ascend 0 0 widths).imp_of_mem fun member later rises => ?_
    rw [UInt32.lt_iff_toNat_lt, UInt32.lt_iff_toNat_lt, (represents.toNat_word32Entry member).1,
      (represents.toNat_word32Entry member).2, (represents.toNat_word32Entry later).1,
      (represents.toNat_word32Entry later).2]
    exact rises
  inside := by
    intro entry held
    rw [← Array.mem_toList_iff, represents.wide] at held
    obtain ⟨number, member, rfl⟩ := List.mem_map.mp held
    have range := mem_wideEntries member
    rw [UInt32.lt_iff_toNat_lt, represents.charCount, (represents.toNat_word32Entry member).1]
    omega
  growth := by
    rw [represents.accumulated_eq]
    exact wideEntries_grow 0 0 atMost
  total := by
    have last := last_wideEntry 0 0 widths
    rw [represents.accumulated_eq, List.getLast?_map, last, Nat.zero_add, represents.charCount,
      represents.byteLength]
    exact represents.surplus_bound

end Represents

/-! ### The search -/

/-- An ordinal divides ascending entries into those below it and the others. -/
theorem split_at_ordinal {entries : List (UInt32 × UInt32)}
    (ascending : entries.Pairwise fun entry later => entry.1 < later.1) (ordinal : UInt32) :
    entries = entries.filter (fun entry => entry.1 < ordinal) ++
      entries.filter (fun entry => ¬ entry.1 < ordinal) := by
  induction entries with
  | nil => rfl
  | cons entry rest ih =>
    obtain ⟨smallest, restAscending⟩ := List.pairwise_cons.mp ascending
    by_cases below : entry.1 < ordinal
    · rw [List.filter_cons_of_pos (by simpa using below),
        List.filter_cons_of_neg (by simpa using below), List.cons_append, ← ih restAscending]
    · -- Behind the first entry that is not below the ordinal, none is.
      have others : ∀ later ∈ entry :: rest, ¬ later.1 < ordinal := by
        refine List.forall_mem_cons.mpr ⟨below, fun later member before => below ?_⟩
        exact UInt32.lt_trans (smallest later member) before
      have noneBelow : (entry :: rest).filter (fun entry => entry.1 < ordinal) = [] :=
        List.filter_eq_nil_iff.mpr (by simpa using others)
      have allKept : (entry :: rest).filter (fun entry => ¬ entry.1 < ordinal) = entry :: rest :=
        List.filter_eq_self.mpr (by simpa using others)
      rw [noneBelow, allKept, List.nil_append]

/-- Halving counts the entries below an ordinal, whichever it is. -/
theorem WellFormed.countBelow_eq_countP (ordered : index.WellFormed) (ordinal : UInt32) :
    countBelow index.wide ordinal 0 index.wide.size =
      index.wide.countP fun entry => entry.1 < ordinal := by
  have ordinals := ordered.ascending.imp And.left
  rw [countBelow_of_append (split_at_ordinal ordinals ordinal), ← Array.countP_toList,
    List.countP_eq_length_filter]
  · intro entry member
    exact of_decide_eq_true (List.mem_filter.mp member).2
  · intro entry member
    exact of_decide_eq_true (List.mem_filter.mp member).2

/-! ### What the index keeps -/

namespace Represents

/-- Code points of the same widths have one index. -/
theorem index_eq {other : PositionIndex} (represents : index.Represents widths)
    (also : other.Represents widths) : index = other := by
  have wide := Array.toList_inj.mp (represents.wide.trans also.wide.symm)
  have charCount := UInt32.toNat_inj.mp (represents.charCount.trans also.charCount.symm)
  have byteLength := UInt32.toNat_inj.mp (represents.byteLength.trans also.byteLength.symm)
  cases index
  cases other
  cases wide
  cases charCount
  cases byteLength
  rfl

/-- An index has one sequence of widths: its answers are their partial sums. -/
theorem widths_eq {others : List Nat} (represents : index.Represents widths)
    (also : index.Represents others) : widths = others := by
  refine List.eq_of_sum_take_eq (represents.charCount.symm.trans also.charCount) ?_
  intro ordinal inside
  have word : ordinal.toUInt32.toNat = ordinal := by
    have bound := index.charCount.toNat_lt
    rw [← represents.charCount] at inside
    exact UInt32.toNat_ofNat_of_lt' (Nat.lt_of_le_of_lt inside bound)
  rw [← word] at inside ⊢
  obtain ⟨offset, answered, value⟩ := represents.byteOffset_eq inside
  rw [← value, (also.byteOffset_eq_ok_iff.mp answered).2]

end Represents

/-- A file has an index exactly if it is decoded to the widths that the index represents. -/
theorem Represents.ofContent_eq_iff (represents : index.Represents widths) (content : List UInt8) :
    ofContent content = .ok index ↔ Decodes content widths := by
  constructor
  · intro built
    rw [decodes_iff]
    exact represents.widths_eq (represents_of_ofContent built)
  · intro decodes
    have small := represents.small
    rw [decodes_sum decodes] at small
    obtain ⟨own, ownBuilt, ownRepresents⟩ := ofContent_represents small decodes
    rw [ownBuilt, represents.index_eq ownRepresents]

/-- The index of a file is its sequence of widths: the table is in order and agrees with the
counters, halving counts the entries below any ordinal, and the files with the same index
are those that are decoded to the same widths. -/
theorem index_is_sparse_widths (content : List UInt8) (small : content.length < UInt32.size) :
    ∃ index widths, ofContent content = .ok index ∧
      (∀ found, Decodes content found ↔ found = widths) ∧ index.WellFormed ∧
      (∀ ordinal, countBelow index.wide ordinal 0 index.wide.size =
        index.wide.countP fun entry => entry.1 < ordinal) ∧
      ∀ other, ofContent other = .ok index ↔ Decodes other widths := by
  have decodes := decodes_stepWidths content
  obtain ⟨index, built, represents⟩ := ofContent_represents small decodes
  have ordered := represents.wellFormed fun width member =>
    (decodes_width_bounds decodes width member).2
  exact ⟨index, stepWidths content, built, fun _ => decodes_iff, ordered,
    ordered.countBelow_eq_countP, represents.ofContent_eq_iff⟩

/-- A letter, then characters of two and of three bytes, then a byte that begins nothing. Other
characters of these widths, between a stray tail and a letter, have the same index; the same
characters in another order do not. -/
theorem index_is_sparse_widths_beside_strays :
    let content : List UInt8 := [0x61, 0xC3, 0xA9, 0xE2, 0x82, 0xAC, 0xFF]
    content.length < UInt32.size ∧ ∃ index widths, ofContent content = .ok index ∧
      (∀ found, Decodes content found ↔ found = widths) ∧ widths = [1, 2, 3, 1] ∧
      index.WellFormed ∧ index.wide = #[(1, 1), (2, 3)] ∧
      countBelow index.wide 2 0 index.wide.size = 1 ∧
      ofContent [0x80, 0xC3, 0xA0, 0xE2, 0x82, 0xAD, 0x62] = .ok index ∧
      ofContent [0x61, 0xE2, 0x82, 0xAC, 0xC3, 0xA9, 0xFF] ≠ .ok index := by
  intro content
  have small : content.length < UInt32.size := by decide
  obtain ⟨index, widths, built, unique, ordered, counted, sameIndex⟩ :=
    index_is_sparse_widths content small
  have steps : widths = [1, 2, 3, 1] :=
    ((unique _).mp (decodes_stepWidths content)).symm.trans (by decide)
  have table : index.wide = #[(1, 1), (2, 3)] := by
    have held : (ofContent content).map wide = .ok #[(1, 1), (2, 3)] := by cbv
    rw [built] at held
    exact Except.ok.inj held
  refine ⟨small, index, widths, built, unique, steps, ordered, table, ?_, ?_, ?_⟩
  · rw [counted, table]
    rfl
  · rw [sameIndex, steps, decodes_iff]
    decide
  · rw [Ne, sameIndex, steps, decodes_iff]
    decide

end SymbolAtlas.PositionIndex
