import Mathlib.Algebra.Group.Action.Defs
import Mathlib.Algebra.Order.BigOperators.Group.List
import Mathlib.Algebra.Order.Group.Nat
import SymbolAtlas.Proofs.Span.SortedConversion
import SymbolAtlas.Proofs.Span.Visits

/-! The offsets of a file go up with its ordinals, by one byte to four for each code
point. So no two code points begin at one byte, a span that is converted to its end
stands the way it stood, and an offset behind a wide code point has been moved on: it
is never taken for an ordinal that is its own offset. -/
namespace SymbolAtlas
open PathName Utf8

section
variable {widths : List Nat}

/-- Going on by some code points goes on by four times as many bytes at most. -/
theorem take_sum_le_add (narrow : ∀ width ∈ widths, width ≤ 4) {first second : Nat}
    (ordered : first ≤ second) :
    (widths.take second).sum ≤ (widths.take first).sum + 4 * (second - first) := by
  obtain ⟨count, rfl⟩ := Nat.exists_eq_add_of_le ordered
  have between : ((widths.drop first).take count).sum ≤
      ((widths.drop first).take count).length • 4 :=
    List.sum_le_card_nsmul _ 4 fun width member =>
      narrow width (List.mem_of_mem_drop (List.mem_of_mem_take member))
  have counted := List.length_take_le count (widths.drop first)
  rw [smul_eq_mul] at between
  rw [List.take_add, List.sum_append]
  omega

/-- Code points take as many bytes as they are only if each takes one. -/
theorem sum_eq_length_iff (positive : ∀ width ∈ widths, 1 ≤ width) :
    widths.sum = widths.length ↔ ∀ width ∈ widths, width = 1 := by
  have total := PositionIndex.length_add_surplus widths positive
  have even : widths.sum = widths.length ↔ PositionIndex.surplus widths = 0 := by omega
  rw [even, PositionIndex.surplus, List.sum_eq_zero_iff, List.forall_mem_map]
  refine forall₂_congr fun width member => ?_
  have least := positive width member
  omega

end

/-- How the offsets of an index follow its ordinals, where its code points have these
widths. -/
structure PositionIndex.KeepsPace (index : PositionIndex) (widths : List Nat) : Prop where
  /-- Each code point takes one byte to four. -/
  steps : ∀ earlier later : UInt32, earlier < later → later ≤ index.charCount →
    ∃ first second, index.byteOffset earlier = .ok first ∧ index.byteOffset later = .ok second ∧
      first.toNat + (later.toNat - earlier.toNat) ≤ second.toNat ∧
      second.toNat ≤ first.toNat + 4 * (later.toNat - earlier.toNat)
  distinct : ∀ one other offset : UInt32,
    index.byteOffset one = .ok offset → index.byteOffset other = .ok offset → one = other
  /-- An ordinal is its own offset as long as no code point before it is wide. -/
  fixed_iff : ∀ ordinal ≤ index.charCount,
    index.byteOffset ordinal = .ok ordinal ↔ ∀ width ∈ widths.take ordinal.toNat, width = 1
  /-- What was moved by a wide code point is moved again, if it is answered at all. -/
  moved : ∀ ordinal offset again : UInt32, index.byteOffset ordinal = .ok offset →
    (∃ width ∈ widths.take ordinal.toNat, 1 < width) → index.byteOffset offset = .ok again →
    offset < again

namespace PositionIndex.Represents
variable {index : PositionIndex} {widths : List Nat}

theorem positive_before (represents : index.Represents widths) (ordinal : Nat) :
    ∀ width ∈ widths.take ordinal, 1 ≤ width :=
  fun width member => represents.positive width (List.mem_of_mem_take member)

theorem inside_iff (represents : index.Represents widths) {ordinal : UInt32} :
    ordinal ≤ index.charCount ↔ ordinal.toNat ≤ widths.length := by
  rw [UInt32.le_iff_toNat_le, represents.charCount]

theorem byteOffset_steps (represents : index.Represents widths)
    (narrow : ∀ width ∈ widths, width ≤ 4) {earlier later : UInt32} (ordered : earlier < later)
    (inside : later ≤ index.charCount) :
    ∃ first second, index.byteOffset earlier = .ok first ∧ index.byteOffset later = .ok second ∧
      first.toNat + (later.toNat - earlier.toNat) ≤ second.toNat ∧
      second.toNat ≤ first.toNat + 4 * (later.toNat - earlier.toNat) := by
  rw [represents.inside_iff] at inside
  rw [UInt32.lt_iff_toNat_lt] at ordered
  obtain ⟨first, firstAnswer, firstValue⟩ :=
    represents.byteOffset_eq (Nat.le_of_lt (Nat.lt_of_lt_of_le ordered inside))
  obtain ⟨second, secondAnswer, secondValue⟩ := represents.byteOffset_eq inside
  refine ⟨first, second, firstAnswer, secondAnswer, ?_, ?_⟩
  · rw [firstValue, secondValue]
    exact take_sum_add_le represents.positive (Nat.le_of_lt ordered) inside
  · rw [firstValue, secondValue]
    exact take_sum_le_add narrow (Nat.le_of_lt ordered)

theorem byteOffset_distinct (represents : index.Represents widths) {one other offset : UInt32}
    (answer : index.byteOffset one = .ok offset) (same : index.byteOffset other = .ok offset) :
    one = other := by
  obtain ⟨oneInside, oneValue⟩ := represents.byteOffset_eq_ok_iff.mp answer
  obtain ⟨otherInside, otherValue⟩ := represents.byteOffset_eq_ok_iff.mp same
  have compared := compare_offsets represents.positive oneInside otherInside oneValue otherValue
  rw [Std.compare_eq_iff_eq.mpr rfl] at compared
  exact Std.compare_eq_iff_eq.mp compared.symm

theorem byteOffset_fixed_iff (represents : index.Represents widths) {ordinal : UInt32}
    (inside : ordinal ≤ index.charCount) :
    index.byteOffset ordinal = .ok ordinal ↔
      ∀ width ∈ widths.take ordinal.toNat, width = 1 := by
  rw [represents.inside_iff] at inside
  rw [represents.byteOffset_eq_ok_iff, and_iff_right inside,
    ← sum_eq_length_iff (represents.positive_before ordinal.toNat),
    List.length_take_of_le inside, eq_comm]

/-- No offset is less than its ordinal, since every code point before it takes a byte. -/
theorem le_byteOffset (represents : index.Represents widths) {ordinal offset : UInt32}
    (answer : index.byteOffset ordinal = .ok offset) : ordinal ≤ offset := by
  obtain ⟨inside, value⟩ := represents.byteOffset_eq_ok_iff.mp answer
  have total := length_add_surplus _ (represents.positive_before ordinal.toNat)
  rw [List.length_take_of_le inside] at total
  rw [UInt32.le_iff_toNat_le]
  omega

theorem lt_byteOffset (represents : index.Represents widths) {ordinal offset : UInt32}
    (answer : index.byteOffset ordinal = .ok offset)
    (passed : ∃ width ∈ widths.take ordinal.toNat, 1 < width) : ordinal < offset := by
  refine UInt32.lt_of_le_of_ne (represents.le_byteOffset answer) ?_
  rintro rfl
  have inside := represents.inside_iff.mpr (represents.byteOffset_eq_ok_iff.mp answer).1
  obtain ⟨width, member, wide⟩ := passed
  have single := (represents.byteOffset_fixed_iff inside).mp answer width member
  omega

/-- An offset behind a wide code point is behind it as an ordinal too, since it is not
less than the ordinal that it came from. -/
theorem byteOffset_moved (represents : index.Represents widths) {ordinal offset again : UInt32}
    (answer : index.byteOffset ordinal = .ok offset)
    (passed : ∃ width ∈ widths.take ordinal.toNat, 1 < width)
    (answerAgain : index.byteOffset offset = .ok again) : offset < again := by
  have grown := UInt32.le_iff_toNat_le.mp (represents.le_byteOffset answer)
  obtain ⟨width, member, wide⟩ := passed
  exact represents.lt_byteOffset answerAgain
    ⟨width, List.take_subset_take_left widths grown member, wide⟩

theorem keepsPace (represents : index.Represents widths)
    (narrow : ∀ width ∈ widths, width ≤ 4) : index.KeepsPace widths where
  steps _ _ := represents.byteOffset_steps narrow
  distinct _ _ _ := represents.byteOffset_distinct
  fixed_iff _ := represents.byteOffset_fixed_iff
  moved _ _ _ := represents.byteOffset_moved

end PositionIndex.Represents

/-! ### Spans -/

/-- The start and the stop of an extent stand to each other as they do in another one. -/
def Extent.StandsLike (after before : Extent) : Prop :=
  (after.start ≤ after.stop ↔ before.start ≤ before.stop) ∧
    (after.start = after.stop ↔ before.start = before.stop)

theorem PositionIndex.Represents.convert_standsLike {index : PositionIndex} {widths : List Nat}
    (represents : index.Represents widths) {e : Extent} (whole : (e.convert index).2.2 = none) :
    (e.convert index).1.StandsLike e := by
  obtain ⟨startInside, stopInside⟩ := represents.inside_of_whole whole
  obtain ⟨start, stop, converted, _, startValue, stopValue⟩ :=
    represents.convert_both startInside stopInside
  have compared := compare_offsets represents.positive startInside stopInside startValue stopValue
  rw [converted, Extent.StandsLike]
  dsimp only
  constructor
  · rw [← Std.isLE_compare, compared, Std.isLE_compare]
  · rw [← Std.compare_eq_iff_eq, compared, Std.compare_eq_iff_eq]

namespace Pass
variable {p : Pass} {fs : FileSystem} {e : Extent}

/-- Everything that a pass knows is the index of some code points. -/
def Genuine (p : Pass) : Prop :=
  ∀ place index, p.snapshot? place = some (some index) → ∃ widths, index.Represents widths

theorem genuine_view (genuine : p.Genuine) {place : List Component} {index : PositionIndex}
    (seen : p.view fs place = some index) : ∃ widths, index.Represents widths := by
  unfold view at seen
  cases known : p.snapshot? place with
  | some found =>
    rw [known, Option.getD_some] at seen
    exact genuine place index (known.trans (congrArg some seen))
  | none =>
    rw [known, Option.getD_none] at seen
    exact FileSystem.observe_represents (remembered_eq_some_iff.mp seen)

theorem genuine_step (genuine : p.Genuine) (m : Moment) :
    (p.step m.files m.extent).Genuine := by
  intro place index known
  rw [step_snapshot] at known
  split at known
  · exact genuine_view genuine (Option.some.inj known)
  · exact genuine place index known

/-- A pass after some moments of a run, each with the files as they were then. -/
def after (p : Pass) (earlier : List Moment) : Pass :=
  earlier.foldl (fun p m => p.step m.files m.extent) p

theorem genuine_after (genuine : p.Genuine) (earlier : List Moment) :
    (p.after earlier).Genuine := by
  induction earlier generalizing p with
  | nil => exact genuine
  | cons m later ih => exact ih (genuine_step genuine m)

theorem genuine_of_fresh (root : List Char) (config : ConversionConfig) :
    ({ root, config } : Pass).Genuine := by
  intro place index known
  cases known

/-- A step that reports nothing has no complaint. -/
theorem complaint?_of_failures
    (quiet : (p.step fs e).report.failures = p.report.failures) : p.complaint? fs e = none := by
  rw [step_failures, List.append_right_eq_self] at quiet
  cases complained : p.complaint? fs e with
  | none => rfl
  | some error =>
    rw [complained] at quiet
    cases quiet

/-- An extent that did not fail was left as it is, or it was converted to its end. -/
theorem fix_standsLike (genuine : p.Genuine)
    (quiet : (p.step fs e).report.failures = p.report.failures) :
    (p.fix fs e).2.StandsLike e := by
  have content := complaint?_of_failures quiet
  have looked := lookup_view p fs (resolve p.root e.file.toList)
  rw [fix_extent, converted]
  rw [complaint?] at content
  by_cases fileless : e.file = ""
  · rw [if_pos fileless]
    exact ⟨Iff.rfl, Iff.rfl⟩
  · rw [if_neg fileless] at content ⊢
    rw [placeOf, ← looked]
    cases found : (p.lookup fs (resolve p.root e.file.toList)).2 with
    | error error =>
      rw [found] at content
      cases content
    | ok seen =>
      cases seen with
      | none => exact ⟨Iff.rfl, Iff.rfl⟩
      | some index =>
        rw [found] at content looked
        obtain ⟨widths, represents⟩ := genuine_view genuine looked.symm
        exact represents.convert_standsLike content

end Pass

/-- The index of every file that is not too large answers with offsets that keep pace with
its ordinals, however wide and narrow code points and bytes that encode nothing follow one
another. And whatever a pass has come to before, an extent that it reports no failure for
stands the way it stood. -/
theorem offsets_keep_pace :
    (∀ content : List UInt8, content.length < UInt32.size →
      ∃ index widths, PositionIndex.ofContent content = .ok index ∧
        (∀ found, Decodes content found ↔ found = widths) ∧ index.KeepsPace widths) ∧
    ∀ (root : List Char) (config : ConversionConfig) (earlier : List Moment) (now : Moment),
      let p := ({ root, config } : Pass).after earlier
      (p.fix now.files now.extent).1.report.failures = p.report.failures →
        (p.fix now.files now.extent).2.StandsLike now.extent := by
  constructor
  · intro content small
    have decodes := decodes_stepWidths content
    have narrow := fun width member => (decodes_width_bounds decodes width member).2
    obtain ⟨index, built, represents⟩ := PositionIndex.ofContent_represents small decodes
    exact ⟨index, stepWidths content, built, fun _ => decodes_iff, represents.keepsPace narrow⟩
  · intro root config earlier now p quiet
    exact Pass.fix_standsLike (Pass.genuine_after (Pass.genuine_of_fresh root config) earlier) quiet

/-- A letter, a two-byte character, a byte that encodes nothing and another letter: the
third ordinal has been moved on by one byte, and is moved again. -/
theorem offsets_keep_pace_past_wide :
    let content : List UInt8 := [0x61, 0xC3, 0xA9, 0xFF, 0x62]
    let files : FileSystem := { status := fun _ => .regular, read := fun _ => .ok content }
    let e : Extent := { file := "m", start := 2, stop := 4 }
    content.length < UInt32.size ∧
      (∃ index widths, PositionIndex.ofContent content = .ok index ∧ widths = [1, 2, 1, 1] ∧
        index.KeepsPace widths ∧ index.byteOffset 2 = .ok 3 ∧
        ∀ again, index.byteOffset 3 = .ok again → 3 < again) ∧
      (({ root := [] } : Pass).fix files e).1.report.failures = [] ∧
      (({ root := [] } : Pass).fix files e).2.StandsLike e := by
  intro content files e
  have small : content.length < UInt32.size := by decide
  have quiet : (({ root := [] } : Pass).fix files e).1.report.failures = [] := by decide
  obtain ⟨ofContents, ofSpans⟩ := offsets_keep_pace
  obtain ⟨index, widths, built, unique, pace⟩ := ofContents content small
  have steps : widths = [1, 2, 1, 1] :=
    ((unique _).mp (decodes_stepWidths content)).symm.trans (by decide)
  have answer : index.byteOffset 2 = .ok 3 := by
    have found : (PositionIndex.ofContent content).bind (·.byteOffset 2) = .ok 3 := by
      decide +kernel
    rw [built] at found
    exact found
  have passed : ∃ width ∈ widths.take (2 : UInt32).toNat, 1 < width := by
    rw [steps]
    decide
  exact ⟨small, ⟨index, widths, built, steps, pace, answer, fun again =>
    pace.moved 2 3 again answer passed⟩, quiet, ofSpans [] {} [] ⟨files, e⟩ quiet⟩

end SymbolAtlas
