import SymbolAtlas.Files.PositionIndex
import SymbolAtlas.Proofs.Text.Decoding

/-! The table of an index is a function of the widths of the code points alone.
Building adds the entries of one piece at a time and is followed width by width;
a lookup finds the entries of the code points before an ordinal, the last of which
holds all the bytes that those have beyond one each. -/
namespace SymbolAtlas.PositionIndex
open Utf8

/-- The bytes that code points have beyond one each. -/
def surplus (widths : List Nat) : Nat := (widths.map (· - 1)).sum

/-- The entries of the wide code points among these, where `ordinal` code points
with `before` surplus bytes precede them. -/
def wideEntries (ordinal before : Nat) : List Nat → List (Nat × Nat)
  | [] => []
  | width :: rest =>
    if 1 < width then
      (ordinal, before + (width - 1)) :: wideEntries (ordinal + 1) (before + (width - 1)) rest
    else wideEntries (ordinal + 1) before rest

/-- An entry as the table holds it. -/
def word32Entry (entry : Nat × Nat) : UInt32 × UInt32 := (entry.1.toUInt32, entry.2.toUInt32)

/-- An index says what it is to say of code points of these widths: its table
holds their entries, and its counters their number and their bytes. -/
structure Represents (index : PositionIndex) (widths : List Nat) : Prop where
  wide : index.wide.toList = (wideEntries 0 0 widths).map word32Entry
  charCount : index.charCount.toNat = widths.length
  byteLength : index.byteLength.toNat = widths.sum
  positive : ∀ width ∈ widths, 1 ≤ width

@[simp] theorem surplus_nil : surplus [] = 0 := rfl

@[simp] theorem surplus_cons (width : Nat) (rest : List Nat) :
    surplus (width :: rest) = (width - 1) + surplus rest := by simp [surplus]

@[simp] theorem surplus_append (first second : List Nat) :
    surplus (first ++ second) = surplus first + surplus second := by simp [surplus]

/-- Every code point has at least one byte, and the surplus counts the others. -/
theorem length_add_surplus (widths : List Nat) (positive : ∀ width ∈ widths, 1 ≤ width) :
    widths.length + surplus widths = widths.sum := by
  induction widths with
  | nil => rfl
  | cons width rest ih =>
    have head := positive width (by simp)
    have tail := ih fun w member => positive w (List.mem_cons_of_mem _ member)
    rw [List.length_cons, surplus_cons, List.sum_cons]
    omega

theorem wideEntries_append (ordinal before : Nat) (first second : List Nat) :
    wideEntries ordinal before (first ++ second) =
      wideEntries ordinal before first ++
        wideEntries (ordinal + first.length) (before + surplus first) second := by
  induction first generalizing ordinal before with
  | nil => rfl
  | cons width rest ih =>
    simp only [List.cons_append, wideEntries, ih, surplus_cons, List.length_cons]
    split
    · rw [List.cons_append, Nat.add_assoc, Nat.add_assoc, Nat.add_comm 1]
    · have none : width - 1 = 0 := by omega
      rw [none, Nat.zero_add, Nat.add_assoc, Nat.add_comm 1]

/-- Each entry stands for one of the code points. It has accumulated its own surplus at
least, and none of later ones. -/
theorem mem_wideEntries {ordinal before : Nat} {widths : List Nat} {entry : Nat × Nat}
    (member : entry ∈ wideEntries ordinal before widths) :
    (ordinal ≤ entry.1 ∧ entry.1 < ordinal + widths.length) ∧
      before < entry.2 ∧ entry.2 ≤ before + surplus widths := by
  induction widths generalizing ordinal before with
  | nil => cases member
  | cons width rest ih =>
    rw [List.length_cons, surplus_cons]
    simp only [wideEntries] at member
    split at member
    · rcases List.mem_cons.mp member with rfl | member
      · omega
      · have inside := ih member
        omega
    · have inside := ih member
      omega

/-- The last entry has accumulated the surplus of all code points. -/
theorem last_wideEntry (ordinal before : Nat) (widths : List Nat) :
    ((wideEntries ordinal before widths).getLast?.map (·.2)).getD before =
      before + surplus widths := by
  induction widths generalizing ordinal before with
  | nil => rfl
  | cons width rest ih =>
    simp only [wideEntries, surplus_cons]
    split
    · rw [List.getLast?_cons, ← Nat.add_assoc, ← ih (ordinal + 1) (before + (width - 1))]
      cases (wideEntries (ordinal + 1) (before + (width - 1)) rest).getLast? <;> rfl
    · have none : width - 1 = 0 := by omega
      rw [none, Nat.zero_add, ih]

/-- The construction after code points of these widths. -/
def Builder.ofWidths (widths : List Nat) : Builder where
  wide := ((wideEntries 0 0 widths).map word32Entry).toArray
  ordinal := widths.length.toUInt32
  surplus := (PositionIndex.surplus widths).toUInt32

private theorem wideEntries_narrow (ordinal before count : Nat) :
    wideEntries ordinal before (List.replicate count 1) = [] := by
  induction count generalizing ordinal with
  | zero => rfl
  | succ count ih => simp [List.replicate_succ, wideEntries, ih]

private theorem surplus_narrow (count : Nat) : surplus (List.replicate count 1) = 0 := by
  simp [surplus]

/-- One piece of the file adds the code points that it is decoded to. -/
theorem add_ofWidths (widths : List Nat) (piece : Piece) :
    (Builder.ofWidths widths).add piece = Builder.ofWidths (widths ++ piece.steps) := by
  cases piece with
  | scalar width =>
    by_cases wide : width > 1
    · simp [Builder.add, Builder.ofWidths, wide, Piece.steps, wideEntries_append, wideEntries,
        word32Entry, UInt32.ofNat_add, UInt32.ofNat_sub (Nat.le_of_lt wide)]
    · have none : width - 1 = 0 := by omega
      simp [Builder.add, Builder.ofWidths, wide, none, Piece.steps, wideEntries_append,
        wideEntries, UInt32.ofNat_add]
  | illFormed length =>
    simp [Builder.add, Builder.ofWidths, Piece.steps, wideEntries_append, wideEntries_narrow,
      surplus_narrow, UInt32.ofNat_add]

/-- Building follows the decoding from the first piece to the last. -/
theorem fold_ofWidths (widths : List Nat) (found : List Piece) :
    found.foldl Builder.add (Builder.ofWidths widths) =
      Builder.ofWidths (widths ++ found.flatMap Piece.steps) := by
  induction found generalizing widths with
  | nil => simp
  | cons piece found ih =>
    rw [List.foldl_cons, add_ofWidths, ih, List.flatMap_cons, List.append_assoc]

/-- A file that is not too large has an index, which says what it is to say of the
code points that the file is decoded to. -/
theorem ofContent_represents {content : List UInt8} {widths : List Nat}
    (small : content.length < UInt32.size) (decodes : Decodes content widths) :
    ∃ index, ofContent content = .ok index ∧ Represents index widths := by
  have total := decodes_sum decodes
  have positive := fun width member => (decodes_width_bounds decodes width member).1
  have count := length_add_surplus widths positive
  have built : foldPieces Builder.add 0 content {} = Builder.ofWidths widths := by
    rw [foldPieces_eq_foldl, decodes_iff.mp decodes]
    exact fold_ofWidths [] (pieces 0 content)
  refine ⟨_, by rw [ofContent]; exact if_pos small, ?_, ?_, ?_, positive⟩
  · rw [built]
    rfl
  · rw [built]
    exact UInt32.toNat_ofNat_of_lt' (by omega)
  · rw [total]
    exact UInt32.toNat_ofNat_of_lt' small

/-- Every index that a file has says what it is to say of the decoding of that file. -/
theorem represents_of_ofContent {content : List UInt8} {index : PositionIndex}
    (built : ofContent content = .ok index) : Represents index (stepWidths content) := by
  by_cases small : content.length < UInt32.size
  · obtain ⟨found, made, represents⟩ := ofContent_represents small (decodes_stepWidths content)
    rw [built] at made
    cases made
    exact represents
  · have refused : ofContent content = .error (.tooLarge content.length) := if_neg small
    rw [built] at refused
    cases refused

end SymbolAtlas.PositionIndex
