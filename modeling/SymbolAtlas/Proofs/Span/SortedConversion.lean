import SymbolAtlas.Proofs.Span.Positions
import SymbolAtlas.Proofs.Span.StableArrangement
import SymbolAtlas.Proofs.Span.Traversal

/-! Conversion keeps spans in their order. All spans of one file are converted by
one index, or all of them are left as they are, and an index sends later code
points to later bytes; spans of different files are told apart by their files. So
it makes no difference whether a batch is sorted before or after it is converted,
unless a position beyond the end of its file has stayed a code point among bytes. -/
namespace SymbolAtlas
open PathName

section
variable {widths : List Nat}

/-- Bytes compare as the code points that begin there. -/
theorem compare_offsets (positive : ∀ width ∈ widths, 1 ≤ width)
    {first second firstByte secondByte : UInt32}
    (firstInside : first.toNat ≤ widths.length) (secondInside : second.toNat ≤ widths.length)
    (firstValue : firstByte.toNat = (widths.take first.toNat).sum)
    (secondValue : secondByte.toNat = (widths.take second.toNat).sum) :
    compare firstByte secondByte = compare first second := by
  rcases Nat.lt_trichotomy first.toNat second.toNat with earlier | same | later
  · have apart := take_sum_add_le positive (Nat.le_of_lt earlier) secondInside
    rw [Std.compare_eq_lt.mpr (UInt32.lt_iff_toNat_lt.mpr earlier)]
    exact Std.compare_eq_lt.mpr (UInt32.lt_iff_toNat_lt.mpr (by omega))
  · rw [← same, ← firstValue] at secondValue
    rw [UInt32.toNat_inj.mp same, UInt32.toNat_inj.mp secondValue]
    rw [Std.compare_eq_iff_eq.mpr rfl, Std.compare_eq_iff_eq.mpr rfl]
  · have apart := take_sum_add_le positive (Nat.le_of_lt later) firstInside
    rw [Std.compare_eq_gt.mpr (UInt32.lt_iff_toNat_lt.mpr later)]
    exact Std.compare_eq_gt.mpr (UInt32.lt_iff_toNat_lt.mpr (by omega))

end

/-- An index that converts two extents to their ends keeps their order. -/
theorem PositionIndex.Represents.compare_convert {index : PositionIndex} {widths : List Nat}
    (represents : index.Represents widths) {a b : Extent}
    (whole : (a.convert index).2.2 = none) (otherWhole : (b.convert index).2.2 = none) :
    compare (a.convert index).1 (b.convert index).1 = compare a b := by
  obtain ⟨aStart, aStop⟩ := represents.inside_of_whole whole
  obtain ⟨bStart, bStop⟩ := represents.inside_of_whole otherWhole
  obtain ⟨start, stop, converted, _, startValue, stopValue⟩ := represents.convert_both aStart aStop
  obtain ⟨otherStart, otherStop, otherConverted, _, otherStartValue, otherStopValue⟩ :=
    represents.convert_both bStart bStop
  have starts := compare_offsets represents.positive aStart bStart startValue otherStartValue
  have stops := compare_offsets represents.positive aStop bStop stopValue otherStopValue
  rw [converted, otherConverted, extent_compare, extent_compare, starts, stops]

/-- A look finds an index only of code points that it represents. -/
theorem FileSystem.observe_represents {fs : FileSystem} {place : List Component}
    {index : PositionIndex} (observed : fs.observe place = .ok (some index)) :
    ∃ widths, index.Represents widths := by
  unfold observe at observed
  cases found : fs.status place with
  | missing => rw [found] at observed; cases observed
  | notRegular => rw [found] at observed; cases observed
  | failed fault => rw [found] at observed; cases observed
  | regular =>
    rw [found] at observed
    cases held : fs.read place with
    | error fault => rw [held] at observed; cases observed
    | ok content =>
      rw [held] at observed
      cases built : PositionIndex.ofContent content with
      | error error => dsimp only at observed; rw [built] at observed; cases observed
      | ok own =>
        dsimp only at observed
        rw [built] at observed
        cases observed
        exact ⟨_, PositionIndex.represents_of_ofContent built⟩

/-- No position of the extent lies beyond the end of its file, as far as its file
has an index. -/
def Extent.WithinFile (fs : FileSystem) (root : List Char) (e : Extent) : Prop :=
  e.file ≠ "" → ∀ index, fs.observe (placeOf root e.file) = .ok (some index) →
    (e.convert index).2.2 = none

theorem Extent.inBytes_file (fs : FileSystem) (root : List Char) (e : Extent) :
    (e.inBytes fs root).file = e.file := by
  unfold inBytes
  split
  · rfl
  · exact e.settle_file _

/-- Converting two extents keeps their order. -/
theorem inBytes_compare {fs : FileSystem} {root : List Char} {a b : Extent}
    (within : a.WithinFile fs root) (otherWithin : b.WithinFile fs root) :
    compare (a.inBytes fs root) (b.inBytes fs root) = compare a b := by
  by_cases sameFile : a.file = b.file
  · by_cases fileless : a.file = ""
    · rw [Extent.inBytes, if_pos fileless, Extent.inBytes, if_pos (sameFile ▸ fileless)]
    · have named : b.file ≠ "" := sameFile ▸ fileless
      rw [Extent.inBytes, if_neg fileless, Extent.inBytes, if_neg named, ← sameFile]
      cases seen : remembered (fs.observe (placeOf root a.file)) with
      | none => rfl
      | some index =>
        have observed := remembered_eq_some_iff.mp seen
        obtain ⟨widths, represents⟩ := FileSystem.observe_represents observed
        exact represents.compare_convert (within fileless index observed)
          (otherWithin named index (sameFile ▸ observed))
  · have decided : compare a.file b.file ≠ .eq := fun same =>
      sameFile (Std.compare_eq_iff_eq.mp same)
    rw [extent_compare, extent_compare, Extent.inBytes_file, Extent.inBytes_file]
    cases apart : compare a.file b.file with
    | lt => rfl
    | eq => exact absurd apart decided
    | gt => rfl

section
variable {α : Type} [Spanned α] {order : α → α → Ordering}

/-- An order that compares extents before all else, and after them nothing that an
extent has part in. -/
def ComparesExtentsFirst (order : α → α → Ordering) : Prop :=
  ∃ others : α → α → Ordering,
    order = compareLex (compareOn Spanned.extent) others ∧
      ∀ a b e f, others (Spanned.withExtent a e) (Spanned.withExtent b f) = others a b

theorem definition_extents_first : ComparesExtentsFirst Definition.order :=
  ⟨_, rfl, fun _ _ _ _ => rfl⟩

theorem reference_extents_first : ComparesExtentsFirst Reference.order :=
  ⟨_, rfl, fun _ _ _ _ => rfl⟩

theorem documentation_extents_first : ComparesExtentsFirst Documentation.order :=
  ⟨_, rfl, fun _ _ _ _ => rfl⟩

/-- Where extents keep their order, sorting commutes with what is done to them, also
for spans that compare equal. -/
theorem sortedBy_onExtent (extentsFirst : ComparesExtentsFirst order) {f : Extent → Extent}
    {spans : List α}
    (kept : ∀ a ∈ spans, ∀ b ∈ spans, compare (f (Spanned.extent a)) (f (Spanned.extent b)) =
      compare (Spanned.extent a) (Spanned.extent b)) :
    (sortedBy order spans).map (onExtent f) = sortedBy order (spans.map (onExtent f)) := by
  obtain ⟨others, rfl, blind⟩ := extentsFirst
  refine List.map_mergeSort fun a memberA b memberB => congrArg Ordering.isLE ?_
  rw [compareLex, compareLex, compareOn, compareOn, onExtent, onExtent, blind,
    Spanned.extent_withExtent, Spanned.extent_withExtent, kept a memberA b memberB]

end

namespace Batch

theorem sorted_onExtents {batch : Batch} {f : Extent → Extent}
    (kept : ∀ a ∈ batch.extents, ∀ b ∈ batch.extents, compare (f a) (f b) = compare a b) :
    batch.sorted.onExtents f = (batch.onExtents f).sorted := by
  rw [onExtents, sorted, sorted, onExtents]
  rw [sortedBy_onExtent definition_extents_first fun a memberA b memberB =>
      kept _ (extent_of_definition memberA) _ (extent_of_definition memberB),
    sortedBy_onExtent reference_extents_first fun a memberA b memberB =>
      kept _ (extent_of_reference memberA) _ (extent_of_reference memberB),
    sortedBy_onExtent documentation_extents_first fun a memberA b memberB =>
      kept _ (extent_of_documentation memberA) _ (extent_of_documentation memberB)]

/-- A conversion that reports no position beyond the end has met none. -/
theorem within_of_report {fs : FileSystem} {root : String} {config : ConversionConfig}
    {batch : Batch}
    (inRange : ∀ failure ∈ (batch.convert fs root config).1.report.failures,
      ∀ position count, failure.error ≠ .outOfRange position count)
    {e : Extent} (inside : e ∈ batch.extents) : e.WithinFile fs root.toList := by
  intro named index observed
  cases stopped : (e.convert index).2.2 with
  | none => rfl
  | some error =>
    exfalso
    have indexed : ({ root := root.toList, config } : Pass).view fs
        (placeOf root.toList e.file) = some index := remembered_eq_some_iff.mpr observed
    obtain ⟨failure, reported, same⟩ := Pass.stopped_is_reported inside named indexed stopped
    obtain ⟨widths, represents⟩ := FileSystem.observe_represents observed
    obtain ⟨position, beyond⟩ := represents.convert_stopped stopped
    rw [← Pass.feed_pass] at reported
    exact inRange failure reported position index.charCount (same.trans beyond)

/-- A batch may be sorted before or after its conversion, whichever of its files
are missing, not regular or unreadable, as long as no position is reported to lie
beyond the end of its file. -/
theorem conversion_commutes_with_sorting {fs : FileSystem} {root : String}
    {config : ConversionConfig} {batch : Batch}
    (inRange : ∀ failure ∈ (batch.convert fs root config).1.report.failures,
      ∀ position count, failure.error ≠ .outOfRange position count) :
    (batch.convert fs root config).2.sorted = (batch.sorted.convert fs root config).2 := by
  have kept : ∀ a ∈ batch.extents, ∀ b ∈ batch.extents,
      compare (a.inBytes fs root.toList) (b.inBytes fs root.toList) = compare a b :=
    fun a insideA b insideB =>
      inBytes_compare (within_of_report inRange insideA) (within_of_report inRange insideB)
  rw [convert_batch, convert_batch]
  exact (sorted_onExtents kept).symm

/-- Two definitions that differ in their notes alone, after an unset position, in a
file of wide characters; and mentions in a file that cannot be read and in one that
is missing. -/
theorem conversion_of_unsorted_notes :
    let fs : FileSystem :=
      { status := fun place => if place = [.name ['m']] then .regular
          else if place = [.name ['x']] then .failed .linkLoop else .missing
        read := fun _ => .ok (Utf8.encode ['é', '€', 'b']) }
    let noted (notes : Bool) : Definition :=
      { extent := { file := "m", start := 1, stop := 3 }, data := .bool notes }
    let unset : Definition := { extent := { file := "m", start := 0, stop := 2 } }
    let mention (file : String) : Reference := { extent := { file, start := 9, stop := 9 } }
    let batch : Batch :=
      { definitions := [noted true, noted false, unset]
        references := [mention "x", mention "x", mention "a"] }
    (∀ failure ∈ (batch.convert fs "" {}).1.report.failures,
        ∀ position count, failure.error ≠ .outOfRange position count) ∧
      batch.sorted.definitions = [unset, noted true, noted false] ∧
      (batch.convert fs "" {}).2.sorted = (batch.sorted.convert fs "" {}).2 := by
  intro fs noted unset mention batch
  have reported : (batch.convert fs "" {}).1.report.failures = [⟨"x", .unreadable .linkLoop⟩] := by
    decide
  have inRange : ∀ failure ∈ (batch.convert fs "" {}).1.report.failures,
      ∀ position count, failure.error ≠ .outOfRange position count := by
    intro failure member
    rw [reported, List.mem_singleton] at member
    subst member
    intro position count same
    cases same
  have arranged : batch.sorted.definitions = [unset, noted true, noted false] := by
    have ordered : [noted true, noted false].Pairwise fun a b => (a.order b).isLE := by decide
    exact sortedBy_concat_of_lt ordered (by decide)
  exact ⟨inRange, arranged, conversion_commutes_with_sorting inRange⟩

end Batch
end SymbolAtlas
