import SymbolAtlas.Proofs.Files.PositionLookup

/-! Both counters of an index and every answer are words, and the largest file that has
an index takes all of a word. Nothing is lost on the way: what the counters hold adds up
to the bytes taken so far, at every turn of the build, and what a lookup adds to an
ordinal are bytes of code points before it. Neither can pass the end of the file. -/
namespace SymbolAtlas
open Utf8

namespace Utf8

/-- A piece takes at least the byte at which it begins, and no more than there are. -/
theorem scan_length_bounds (b : UInt8) (rest : List UInt8) :
    1 ≤ (scan b rest).length ∧ (scan b rest).length ≤ (b :: rest).length := by
  cases scanned : scan b rest with
  | scalar width =>
    obtain ⟨c, more, split, rfl⟩ := encoded_of_scan scanned
    rw [split, List.length_append]
    exact ⟨List.length_pos_iff.mpr String.utf8EncodeChar_ne_nil, Nat.le_add_right _ _⟩
  | illFormed length =>
    obtain ⟨front, back, rfl, rfl, _⟩ := scan_illFormed scanned
    rw [Piece.length, List.length_cons, List.length_append]
    omega

/-- The pieces go on behind the first of them. -/
theorem pieces_cons (b : UInt8) (rest : List UInt8) :
    pieces 0 (b :: rest) =
      scan b rest :: pieces 0 ((b :: rest).drop (scan b rest).length) := by
  obtain ⟨count, size⟩ := Nat.exists_eq_add_of_le (scan_length_bounds b rest).1
  rw [pieces, pieces_skipping, size, Nat.add_sub_cancel_left, Nat.add_comm, List.drop_succ_cons]

/-- The first pieces take the first bytes, and the others are the pieces of the rest. -/
theorem pieces_split {content : List UInt8} {added left : List Piece}
    (split : pieces 0 content = added ++ left) :
    ∃ taken rest, content = taken ++ rest ∧ left = pieces 0 rest ∧
      taken.length = (added.map Piece.length).sum ∧ ∀ piece ∈ added, 1 ≤ piece.length := by
  induction added generalizing content with
  | nil => exact ⟨[], content, rfl, split.symm, rfl, List.forall_mem_nil _⟩
  | cons piece added ih =>
    cases content with
    | nil => cases split
    | cons b bytes =>
      rw [pieces_cons, List.cons_append, List.cons.injEq] at split
      obtain ⟨rfl, later⟩ := split
      obtain ⟨some, within⟩ := scan_length_bounds b bytes
      obtain ⟨taken, rest, whole, others, size, positive⟩ := ih later
      refine ⟨(b :: bytes).take (scan b bytes).length ++ taken, rest, ?_, others, ?_, ?_⟩
      · rw [List.append_assoc, ← whole, List.take_append_drop]
      · rw [List.length_append, List.length_take_of_le within, size, List.map_cons, List.sum_cons]
      · exact List.forall_mem_cons.mpr ⟨some, positive⟩

end Utf8

namespace PositionIndex

/-- What both counters hold together. -/
def Builder.counted (b : Builder) : Nat := b.ordinal.toNat + b.surplus.toNat

/-- The build after these pieces. -/
def Builder.ofPieces (added : List Piece) : Builder := added.foldl Builder.add {}

/-- Nothing is lost when a piece is added: its size is a word, and no counter passes the
last word. -/
def Builder.AddsExactly (b : Builder) : Piece → Prop
  | .scalar width =>
    width.toUInt32.toNat = width ∧ (b.ordinal + 1).toNat = b.ordinal.toNat + 1 ∧
      (1 < width → (width.toUInt32 - 1).toNat = width - 1 ∧
        (b.surplus + (width.toUInt32 - 1)).toNat = b.surplus.toNat + (width - 1))
  | .illFormed length =>
    length.toUInt32.toNat = length ∧
      (b.ordinal + length.toUInt32).toNat = b.ordinal.toNat + length

private theorem toNat_toUInt32 {n : Nat} (small : n < UInt32.size) : n.toUInt32.toNat = n :=
  UInt32.toNat_ofNat_of_lt' small

private theorem toNat_add_word {a b : UInt32} (room : a.toNat + b.toNat < UInt32.size) :
    (a + b).toNat = a.toNat + b.toNat := by
  rw [UInt32.toNat_add]
  exact Nat.mod_eq_of_lt room

/-- Where the counters have room for a piece, it is added without loss. -/
theorem addsExactly_of_room {b : Builder} {piece : Piece} (some : 1 ≤ piece.length)
    (room : b.counted + piece.length < UInt32.size) : b.AddsExactly piece := by
  unfold Builder.counted at room
  cases piece with
  | scalar width =>
    rw [Piece.length] at some room
    have word := toNat_toUInt32 (show width < UInt32.size by omega)
    refine ⟨word, toNat_add_word ?_, fun wide => ?_⟩
    · rw [UInt32.toNat_one]
      omega
    · have least : (1 : UInt32) ≤ width.toUInt32 := by
        rw [UInt32.le_iff_toNat_le, word]
        exact some
      have rest : (width.toUInt32 - 1).toNat = width - 1 := by
        rw [UInt32.toNat_sub_of_le _ _ least, word]
        rfl
      refine ⟨rest, ?_⟩
      rw [toNat_add_word (by omega), rest]
  | illFormed length =>
    rw [Piece.length] at room
    have word := toNat_toUInt32 (show length < UInt32.size by omega)
    refine ⟨word, ?_⟩
    rw [toNat_add_word (by omega), word]

/-- A piece that is added without loss adds its bytes to what is counted. -/
theorem counted_add {b : Builder} {piece : Piece} (some : 1 ≤ piece.length)
    (exactly : b.AddsExactly piece) : (b.add piece).counted = b.counted + piece.length := by
  unfold Builder.counted
  cases piece with
  | scalar width =>
    obtain ⟨_, next, further⟩ := exactly
    rw [Piece.length] at some ⊢
    by_cases wide : 1 < width
    · rw [Builder.add, if_pos wide]
      dsimp only
      rw [next, (further wide).2]
      omega
    · rw [Builder.add, if_neg wide]
      dsimp only
      rw [next]
      omega
  | illFormed length =>
    rw [Builder.add, Piece.length]
    dsimp only
    rw [exactly.2]
    omega

/-- After any pieces that a word has room for, their bytes have been counted. -/
theorem counted_foldl (b : Builder) {added : List Piece}
    (positive : ∀ piece ∈ added, 1 ≤ piece.length)
    (room : b.counted + (added.map Piece.length).sum < UInt32.size) :
    (added.foldl Builder.add b).counted = b.counted + (added.map Piece.length).sum := by
  induction added generalizing b with
  | nil => rfl
  | cons piece added ih =>
    rw [List.forall_mem_cons] at positive
    rw [List.map_cons, List.sum_cons] at room ⊢
    have exactly : b.AddsExactly piece := addsExactly_of_room positive.1 (by omega)
    have step := counted_add positive.1 exactly
    rw [List.foldl_cons, ih (b.add piece) positive.2 (by omega), step, Nat.add_assoc]

/-- The surplus that a lookup adds to an ordinal: that of the last entry before it. -/
def surplusBefore (index : PositionIndex) (ordinal : UInt32) : UInt32 :=
  match countBelow index.wide ordinal 0 index.wide.size with
  | 0 => 0
  | preceding + 1 => (index.wide[preceding]?.map (·.2)).getD 0

theorem byteOffset_eq_add {index : PositionIndex} {ordinal offset : UInt32}
    (answered : index.byteOffset ordinal = .ok offset) :
    offset = ordinal + index.surplusBefore ordinal := by
  unfold byteOffset at answered
  split at answered
  · cases answered
  · exact (Except.ok.inj answered).symm

/-- The words of an index and of its build are the numbers that they stand for. -/
structure CountsExactly (index : PositionIndex) (content : List UInt8) : Prop where
  byteLength : index.byteLength.toNat = content.length
  /-- The index is what the whole build gives. -/
  built : index.wide = (Builder.ofPieces (pieces 0 content)).wide ∧
    index.charCount = (Builder.ofPieces (pieces 0 content)).ordinal
  /-- At every turn the counters add up to the bytes taken, and the next piece is added
  without loss. -/
  building : ∀ added left, pieces 0 content = added ++ left →
    ∃ taken rest, content = taken ++ rest ∧ left = pieces 0 rest ∧
      (Builder.ofPieces added).ordinal.toNat + (Builder.ofPieces added).surplus.toNat =
        taken.length ∧
      taken.length ≤ index.byteLength.toNat ∧
      ∀ next ∈ left.head?, (Builder.ofPieces added).AddsExactly next
  /-- Every answer is a sum within the file. -/
  lookup : ∀ ordinal offset, index.byteOffset ordinal = .ok offset →
    offset = ordinal + index.surplusBefore ordinal ∧
      ordinal.toNat + (index.surplusBefore ordinal).toNat ≤ index.byteLength.toNat ∧
      offset.toNat = ordinal.toNat + (index.surplusBefore ordinal).toNat

/-- At every turn of the build the bytes taken have been counted, and there is room for
the next piece. -/
theorem counted_at_turn {content : List UInt8} (small : content.length < UInt32.size)
    {added left : List Piece} (split : pieces 0 content = added ++ left) :
    ∃ taken rest, content = taken ++ rest ∧ left = pieces 0 rest ∧
      (Builder.ofPieces added).counted = taken.length ∧
      ∀ next ∈ left.head?, (Builder.ofPieces added).AddsExactly next := by
  obtain ⟨taken, rest, whole, others, size, positive⟩ := pieces_split split
  have bound := congrArg List.length whole
  rw [List.length_append] at bound
  have empty : ({} : Builder).counted = 0 := rfl
  have counted := counted_foldl {} positive (by omega)
  rw [empty, Nat.zero_add, ← size] at counted
  refine ⟨taken, rest, whole, others, counted, ?_⟩
  intro next first
  rw [others] at first
  -- The next piece begins behind the bytes taken, and lies within the file.
  cases rest with
  | nil => cases first
  | cons b bytes =>
    rw [pieces_cons] at first
    cases first
    obtain ⟨some, within⟩ := scan_length_bounds b bytes
    refine addsExactly_of_room some ?_
    rw [Builder.ofPieces, counted]
    omega

namespace Represents
variable {index : PositionIndex} {widths : List Nat}

/-- The code points before an ordinal take one byte each, and their surplus. -/
theorem surplus_bound_before (represents : index.Represents widths) {ordinal : UInt32}
    (inside : ordinal.toNat ≤ widths.length) :
    ordinal.toNat + surplus (widths.take ordinal.toNat) = (widths.take ordinal.toNat).sum := by
  have total := length_add_surplus (widths.take ordinal.toNat)
    fun width member => represents.positive width (List.mem_of_mem_take member)
  rwa [List.length_take_of_le inside] at total

/-- The surplus before an ordinal is that of the code points before it. -/
theorem toNat_surplusBefore (represents : index.Represents widths) {ordinal : UInt32}
    (inside : ordinal.toNat ≤ widths.length) :
    (index.surplusBefore ordinal).toNat = surplus (widths.take ordinal.toNat) := by
  have total := represents.surplus_bound_before inside
  have bound := sum_take_le widths ordinal.toNat
  have small := represents.small
  have found : index.surplusBefore ordinal = (surplus (widths.take ordinal.toNat)).toUInt32 := by
    rw [surplusBefore, represents.countBelow_eq inside]
    exact represents.surplus_before ordinal.toNat
  rw [found]
  exact toNat_toUInt32 (by omega)

end Represents

/-- A file whose size is a word is counted without loss, at every turn of the build and in
every answer. -/
theorem words_count_exactly (content : List UInt8) (small : content.length < UInt32.size) :
    ∃ index, ofContent content = .ok index ∧ index.CountsExactly content := by
  have decodes := decodes_stepWidths content
  obtain ⟨index, built, represents⟩ := ofContent_represents small decodes
  have byteLength : index.byteLength.toNat = content.length :=
    represents.byteLength.trans (decodes_sum decodes)
  refine ⟨index, built, byteLength, ?_, ?_, ?_⟩
  · have whole := built
    rw [ofContent, if_pos small, foldPieces_eq_foldl] at whole
    cases whole
    exact ⟨rfl, rfl⟩
  · intro added left split
    obtain ⟨taken, rest, whole, others, counted, room⟩ := counted_at_turn small split
    refine ⟨taken, rest, whole, others, counted, ?_, room⟩
    rw [byteLength, whole, List.length_append]
    exact Nat.le_add_right _ _
  · intro ordinal offset answered
    obtain ⟨inside, value⟩ := represents.byteOffset_eq_ok_iff.mp answered
    have extra := represents.toNat_surplusBefore inside
    have total := represents.surplus_bound_before inside
    have bound := sum_take_le (stepWidths content) ordinal.toNat
    rw [← represents.byteLength] at bound
    exact ⟨byteOffset_eq_add answered, by omega, by omega⟩

/-- A sequence of two bytes, and then the first two bytes of three: three code points in
four bytes. -/
theorem words_count_exactly_cut :
    let content : List UInt8 := [0xC3, 0xA9, 0xE2, 0x82]
    content.length < UInt32.size ∧
      ∃ index, ofContent content = .ok index ∧ index.CountsExactly content ∧
        index.charCount = 3 ∧ index.byteLength = 4 := by
  intro content
  have small : content.length < UInt32.size := by decide
  obtain ⟨index, built, exactly⟩ := words_count_exactly content small
  have counted : (ofContent content).map charCount = .ok 3 := by cbv
  rw [built] at counted
  exact ⟨small, index, built, exactly, Except.ok.inj counted,
    UInt32.toNat_inj.mp exactly.byteLength⟩

end PositionIndex
end SymbolAtlas
