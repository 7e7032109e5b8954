import SymbolAtlas.Proofs.Files.PositionLookup
import SymbolAtlas.Span.Conversion

/-! The positions of one extent. Each is converted to the bytes before its code
point, or refused when it lies beyond the end of the file; nothing else can stop
the conversion of an extent once its file has an index. Every code point has at
least one byte, so positions that are converted stay in their order. -/
namespace SymbolAtlas
open PositionIndex

/-- Going on by some code points goes on by at least as many bytes. -/
theorem take_sum_add_le {widths : List Nat} (positive : ∀ width ∈ widths, 1 ≤ width)
    {first second : Nat} (ordered : first ≤ second) (inside : second ≤ widths.length) :
    (widths.take first).sum + (second - first) ≤ (widths.take second).sum := by
  obtain ⟨count, rfl⟩ := Nat.exists_eq_add_of_le ordered
  have between : ((widths.drop first).take count).length = count :=
    List.length_take_of_le (by rw [List.length_drop]; omega)
  have counted := length_add_surplus ((widths.drop first).take count)
    fun width member => positive width (List.mem_of_mem_drop (List.mem_of_mem_take member))
  rw [List.take_add, List.sum_append]
  omega

namespace PositionIndex.Represents
variable {index : PositionIndex} {widths : List Nat}

/-- A position that is not beyond the last code point is converted to the bytes
before its code point. Zero is not looked up, and there are none before it. -/
theorem convert_inside (represents : index.Represents widths) {position : UInt32}
    (inside : position.toNat ≤ widths.length) :
    ∃ offset counted, index.convert position = .ok (offset, counted) ∧
      offset.toNat = (widths.take position.toNat).sum := by
  unfold PositionIndex.convert
  by_cases unset : position = 0
  · rw [if_pos unset, unset]
    exact ⟨0, 0, rfl, rfl⟩
  · obtain ⟨offset, answered, value⟩ := represents.byteOffset_eq inside
    rw [if_neg unset, answered]
    exact ⟨offset, 1, rfl, value⟩

/-- Every other position is refused. -/
theorem convert_beyond (represents : index.Represents widths) {position : UInt32}
    (beyond : widths.length < position.toNat) :
    index.convert position = .error (.outOfRange position index.charCount) := by
  have set : position ≠ 0 := by
    rintro rfl
    exact Nat.not_lt_zero _ beyond
  rw [PositionIndex.convert, if_neg set, (represents.byteOffset_error_iff position).mpr beyond]
  rfl

/-- Both positions are converted when neither lies beyond the end. -/
theorem convert_both (represents : index.Represents widths) {e : Extent}
    (startInside : e.start.toNat ≤ widths.length) (stopInside : e.stop.toNat ≤ widths.length) :
    ∃ start stop, (e.convert index).1 = { e with start, stop } ∧ (e.convert index).2.2 = none ∧
      start.toNat = (widths.take e.start.toNat).sum ∧
      stop.toNat = (widths.take e.stop.toNat).sum := by
  obtain ⟨start, first, startConverted, startValue⟩ := represents.convert_inside startInside
  obtain ⟨stop, second, stopConverted, stopValue⟩ := represents.convert_inside stopInside
  refine ⟨start, stop, ?_, ?_, startValue, stopValue⟩
  · simp only [Extent.convert, startConverted, stopConverted]
  · simp only [Extent.convert, startConverted, stopConverted]

/-- A start beyond the end leaves the extent as it is. -/
theorem convert_start_beyond (represents : index.Represents widths) {e : Extent}
    (beyond : widths.length < e.start.toNat) :
    e.convert index = (e, 0, some (.outOfRange e.start index.charCount)) := by
  simp only [Extent.convert, represents.convert_beyond beyond]

/-- A stop beyond the end is left, after the start has been converted. -/
theorem convert_stop_beyond (represents : index.Represents widths) {e : Extent}
    (startInside : e.start.toNat ≤ widths.length) (beyond : widths.length < e.stop.toNat) :
    ∃ start, (e.convert index).1 = { e with start } ∧
      (e.convert index).2.2 = some (.outOfRange e.stop index.charCount) ∧
      start.toNat = (widths.take e.start.toNat).sum := by
  obtain ⟨start, first, startConverted, startValue⟩ := represents.convert_inside startInside
  refine ⟨start, ?_, ?_, startValue⟩
  · simp only [Extent.convert, startConverted, represents.convert_beyond beyond]
  · simp only [Extent.convert, startConverted, represents.convert_beyond beyond]

/-- An extent that is stopped has a position beyond the end, and that is reported. -/
theorem convert_stopped (represents : index.Represents widths) {e : Extent} {error : SpanError}
    (stopped : (e.convert index).2.2 = some error) :
    ∃ position, error = .outOfRange position index.charCount := by
  by_cases startInside : e.start.toNat ≤ widths.length
  · by_cases stopInside : e.stop.toNat ≤ widths.length
    · obtain ⟨_, _, _, whole, _⟩ := represents.convert_both startInside stopInside
      rw [whole] at stopped
      cases stopped
    · obtain ⟨_, _, refused, _⟩ :=
        represents.convert_stop_beyond startInside (Nat.lt_of_not_le stopInside)
      rw [refused] at stopped
      cases stopped
      exact ⟨e.stop, rfl⟩
  · rw [represents.convert_start_beyond (Nat.lt_of_not_le startInside)] at stopped
    cases stopped
    exact ⟨e.start, rfl⟩

/-- An extent that is not stopped has no position beyond the end. -/
theorem inside_of_whole (represents : index.Represents widths) {e : Extent}
    (whole : (e.convert index).2.2 = none) :
    e.start.toNat ≤ widths.length ∧ e.stop.toNat ≤ widths.length := by
  by_cases startInside : e.start.toNat ≤ widths.length
  · refine ⟨startInside, Nat.le_of_not_lt fun stopBeyond => ?_⟩
    obtain ⟨_, _, refused, _⟩ := represents.convert_stop_beyond startInside stopBeyond
    rw [whole] at refused
    cases refused
  · rw [represents.convert_start_beyond (Nat.lt_of_not_le startInside)] at whole
    cases whole

end PositionIndex.Represents
end SymbolAtlas
