import SymbolAtlas.Proofs.Span.Positions
import SymbolAtlas.Proofs.Span.Snapshot

/-! A span in characters and its conversion cover the same part of a text. The
positions of the conversion lie between characters, and the bytes between them
encode exactly the characters that the span covered. -/
namespace SymbolAtlas
open PathName Utf8

namespace Utf8

theorem encode_append (first second : List Char) :
    encode (first ++ second) = encode first ++ encode second := List.flatMap_append

/-- A position in the bytes of a text that lies inside none of its characters. -/
def IsBoundary (text : List Char) (position : Nat) : Prop :=
  ∃ before after, text = before ++ after ∧ (encode before).length = position

/-- The byte at which a character begins. -/
def offsetOf (text : List Char) (ordinal : Nat) : Nat := (encode (text.take ordinal)).length

theorem boundary_offsetOf (text : List Char) (ordinal : Nat) :
    IsBoundary text (offsetOf text ordinal) :=
  ⟨text.take ordinal, text.drop ordinal, (List.take_append_drop ordinal text).symm, rfl⟩

theorem take_offsetOf (text : List Char) (ordinal : Nat) :
    (encode text).take (offsetOf text ordinal) = encode (text.take ordinal) := by
  have split := encode_append (text.take ordinal) (text.drop ordinal)
  rw [List.take_append_drop] at split
  rw [split, offsetOf, List.take_left]

theorem drop_offsetOf (text : List Char) (ordinal : Nat) :
    (encode text).drop (offsetOf text ordinal) = encode (text.drop ordinal) := by
  have split := encode_append (text.take ordinal) (text.drop ordinal)
  rw [List.take_append_drop] at split
  rw [split, offsetOf, List.drop_left]

theorem offsetOf_le (text : List Char) (ordinal : Nat) :
    offsetOf text ordinal ≤ (encode text).length := by
  have taken := congrArg List.length (take_offsetOf text ordinal)
  rw [List.length_take, ← offsetOf] at taken
  omega

/-- Going on by some characters goes on by their bytes. -/
theorem offsetOf_add (text : List Char) (start count : Nat) :
    offsetOf text (start + count) = offsetOf text start + offsetOf (text.drop start) count := by
  rw [offsetOf, List.take_add, encode_append, List.length_append, offsetOf, offsetOf]

/-- The bytes between two characters encode the characters between them. -/
theorem extract_encode (text : List Char) {start stop : Nat} (ordered : start ≤ stop) :
    (encode text).extract (offsetOf text start) (offsetOf text stop) =
      encode (text.extract start stop) := by
  obtain ⟨count, rfl⟩ := Nat.exists_eq_add_of_le ordered
  rw [List.extract_eq_take_drop, List.extract_eq_take_drop, drop_offsetOf, offsetOf_add,
    Nat.add_sub_cancel_left, Nat.add_sub_cancel_left, take_offsetOf]

end Utf8

/-- The bytes of a text that `after` covers encode the characters that `before`
covers, from the first byte of one to the last byte of another. -/
structure Extent.SameRange (text : List Char) (before after : Extent) : Prop where
  ordered : after.start ≤ after.stop
  inside : after.stop.toNat ≤ (encode text).length
  startBoundary : IsBoundary text after.start.toNat
  stopBoundary : IsBoundary text after.stop.toNat
  bytes : (encode text).extract after.start.toNat after.stop.toNat =
    encode (text.extract before.start.toNat before.stop.toNat)

/-- A place holds a text: a regular file is there, it can be read, and its bytes
are those of the text and not too many. -/
structure FileSystem.HoldsText (fs : FileSystem) (place : List Component) (text : List Char) :
    Prop where
  regular : fs.status place = .regular
  readable : fs.read place = .ok (encode text)
  small : (encode text).length < UInt32.size

private theorem take_charWidths (text : List Char) (ordinal : Nat) :
    ((charWidths text).take ordinal).sum = offsetOf text ordinal := by
  rw [charWidths, ← List.map_take, offsetOf, ← sum_charWidths, charWidths]

/-- A position is converted to the byte at which its character begins. -/
theorem PositionIndex.Represents.convert_eq {index : PositionIndex} {text : List Char}
    (represents : index.Represents (charWidths text)) {position : UInt32}
    (inside : position.toNat ≤ text.length) :
    ∃ offset counted, index.convert position = .ok (offset, counted) ∧
      offset.toNat = offsetOf text position.toNat := by
  have listed : position.toNat ≤ (charWidths text).length := by
    rw [charWidths, List.length_map]
    exact inside
  obtain ⟨offset, counted, converted, value⟩ := represents.convert_inside listed
  exact ⟨offset, counted, converted, value.trans (take_charWidths text _)⟩

theorem Extent.convert_sameRange {index : PositionIndex} {text : List Char}
    (represents : index.Represents (charWidths text)) {e : Extent} (ordered : e.start ≤ e.stop)
    (inside : e.stop.toNat ≤ text.length) : e.SameRange text (e.convert index).1 := by
  have order : e.start.toNat ≤ e.stop.toNat := UInt32.le_iff_toNat_le.mp ordered
  obtain ⟨start, first, startConverted, startValue⟩ :=
    represents.convert_eq (Nat.le_trans order inside)
  obtain ⟨stop, second, stopConverted, stopValue⟩ := represents.convert_eq inside
  have converted : (e.convert index).1 = { e with start, stop } := by
    rw [Extent.convert, startConverted]
    dsimp only
    rw [stopConverted]
  rw [converted]
  constructor
  · rw [UInt32.le_iff_toNat_le, startValue, stopValue]
    obtain ⟨count, split⟩ := Nat.exists_eq_add_of_le order
    rw [split, offsetOf_add]
    exact Nat.le_add_right _ _
  · rw [stopValue]
    exact offsetOf_le text _
  · rw [startValue]
    exact boundary_offsetOf text _
  · rw [stopValue]
    exact boundary_offsetOf text _
  · rw [startValue, stopValue]
    exact extract_encode text order

/-- A look at a place that holds a text finds an index of its characters. -/
theorem FileSystem.HoldsText.observe {fs : FileSystem} {place : List Component}
    {text : List Char} (holds : fs.HoldsText place text) :
    ∃ index, fs.observe place = .ok (some index) ∧ index.Represents (charWidths text) := by
  obtain ⟨index, built, represents⟩ :=
    PositionIndex.ofContent_represents holds.small (decodes_encode text)
  refine ⟨index, ?_, represents⟩
  rw [FileSystem.observe, holds.regular]
  dsimp only
  rw [holds.readable]
  dsimp only
  rw [built]
  rfl

/-- A span in the file of a text covers the same part of it in bytes. -/
theorem Extent.inBytes_sameRange {fs : FileSystem} {root : List Char} {e : Extent}
    {text : List Char} (named : e.file ≠ "") (holds : fs.HoldsText (placeOf root e.file) text)
    (ordered : e.start ≤ e.stop) (inside : e.stop.toNat ≤ text.length) :
    e.SameRange text (e.inBytes fs root) := by
  obtain ⟨index, observed, represents⟩ := holds.observe
  rw [Extent.inBytes, if_neg named, observed]
  exact Extent.convert_sameRange represents ordered inside

end SymbolAtlas
