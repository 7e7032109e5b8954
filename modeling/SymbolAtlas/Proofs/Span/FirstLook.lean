import Mathlib.Data.List.Forall2
import SymbolAtlas.Proofs.Span.Positions
import SymbolAtlas.Proofs.Span.Traversal

/-! The files may change while a pass is fed one batch after another. Every place
keeps the meaning that it had when the pass first came to it: what was found then
decides about all spans in the place, in this batch and in later ones, whatever has
been written or removed since and whatever became of the other spans. -/
namespace SymbolAtlas
open PathName Utf8

/-- A batch that a pass is given, with the files as they are at that moment. -/
structure Feed where
  files : FileSystem
  batch : Batch

/-- Feeds one batch after another, each with the files of its moment. -/
def Pass.run (p : Pass) : List Feed → Pass × List Batch
  | [] => (p, [])
  | feed :: later =>
    let (p, batch) := p.feed feed.files feed.batch
    let (p, batches) := p.run later
    (p, batch :: batches)

/-- The files as they are when a pass that is fed these batches first comes to a
place, if it ever does. -/
def firstLook (root : List Char) (place : List Component) : List Feed → Option FileSystem
  | [] => none
  | feed :: later =>
    if ∃ e ∈ feed.batch.extents, e.LiesAt root place then some feed.files
    else firstLook root place later

/-- What a look at a place finds. A file with more bytes than positions can count
is no better than one that cannot be read. -/
inductive Finding where
  | missing
  | notRegular
  | failed
  | content (bytes : List UInt8)

def FileSystem.finding (fs : FileSystem) (place : List Component) : Finding :=
  match fs.status place with
  | .missing => .missing
  | .notRegular => .notRegular
  | .failed _ => .failed
  | .regular =>
    match fs.read place with
    | .error _ => .failed
    | .ok bytes => if bytes.length < UInt32.size then .content bytes else .failed

/-- The code point with this ordinal begins at this byte when the bytes are decoded
from the first one. The ordinal after the last code point is the end. -/
def BeginsAt (bytes : List UInt8) (ordinal offset : UInt32) : Prop :=
  ∃ widths, Decodes bytes widths ∧ ordinal.toNat ≤ widths.length ∧
    offset.toNat = (widths.take ordinal.toNat).sum

/-- The bytes have fewer code points. -/
def Beyond (bytes : List UInt8) (ordinal : UInt32) : Prop :=
  ∃ widths, Decodes bytes widths ∧ widths.length < ordinal.toNat

/-- What becomes of an extent by what was found in its place. Only code points that
could be counted are replaced, the start before the stop, up to the first position
that the file does not have. -/
inductive Finding.Settles : Finding → Extent → Extent → Prop where
  | missing (e : Extent) : Settles .missing e e
  | notRegular (e : Extent) : Settles .notRegular e e
  | failed (e : Extent) : Settles .failed e e
  | both {bytes : List UInt8} {e : Extent} {start stop : UInt32}
      (startBegins : BeginsAt bytes e.start start) (stopBegins : BeginsAt bytes e.stop stop) :
      Settles (.content bytes) e { e with start, stop }
  | startAlone {bytes : List UInt8} {e : Extent} {start : UInt32}
      (startBegins : BeginsAt bytes e.start start) (stopBeyond : Beyond bytes e.stop) :
      Settles (.content bytes) e { e with start }
  | neither {bytes : List UInt8} {e : Extent} (startBeyond : Beyond bytes e.start) :
      Settles (.content bytes) e e

theorem beginsAt_iff {bytes : List UInt8} {ordinal offset : UInt32} :
    BeginsAt bytes ordinal offset ↔ ordinal.toNat ≤ (stepWidths bytes).length ∧
      offset.toNat = ((stepWidths bytes).take ordinal.toNat).sum := by
  constructor
  · rintro ⟨widths, decodes, begins⟩
    rw [decodes_iff.mp decodes] at begins
    exact begins
  · intro begins
    exact ⟨_, decodes_stepWidths bytes, begins⟩

theorem beyond_iff {bytes : List UInt8} {ordinal : UInt32} :
    Beyond bytes ordinal ↔ (stepWidths bytes).length < ordinal.toNat := by
  constructor
  · rintro ⟨widths, decodes, beyond⟩
    rw [decodes_iff.mp decodes] at beyond
    exact beyond
  · intro beyond
    exact ⟨_, decodes_stepWidths bytes, beyond⟩

/-- An index of the bytes converts an extent to what the bytes settle it to. -/
theorem content_settles_iff {bytes : List UInt8} {index : PositionIndex}
    (represents : index.Represents (stepWidths bytes)) {e after : Extent} :
    (Finding.content bytes).Settles e after ↔ after = (e.convert index).1 := by
  constructor
  · intro settles
    cases settles with
    | both startBegins stopBegins =>
      obtain ⟨startInside, startValue⟩ := beginsAt_iff.mp startBegins
      obtain ⟨stopInside, stopValue⟩ := beginsAt_iff.mp stopBegins
      obtain ⟨start, stop, converted, _, startSame, stopSame⟩ :=
        represents.convert_both startInside stopInside
      rw [converted, UInt32.toNat_inj.mp (startValue.trans startSame.symm),
        UInt32.toNat_inj.mp (stopValue.trans stopSame.symm)]
    | startAlone startBegins stopBeyond =>
      obtain ⟨startInside, startValue⟩ := beginsAt_iff.mp startBegins
      obtain ⟨start, converted, _, startSame⟩ :=
        represents.convert_stop_beyond startInside (beyond_iff.mp stopBeyond)
      rw [converted, UInt32.toNat_inj.mp (startValue.trans startSame.symm)]
    | neither startBeyond =>
      rw [represents.convert_start_beyond (beyond_iff.mp startBeyond)]
  · rintro rfl
    by_cases startInside : e.start.toNat ≤ (stepWidths bytes).length
    · by_cases stopInside : e.stop.toNat ≤ (stepWidths bytes).length
      · obtain ⟨start, stop, converted, _, startValue, stopValue⟩ :=
          represents.convert_both startInside stopInside
        rw [converted]
        exact .both (beginsAt_iff.mpr ⟨startInside, startValue⟩)
          (beginsAt_iff.mpr ⟨stopInside, stopValue⟩)
      · have stopBeyond := Nat.lt_of_not_le stopInside
        obtain ⟨start, converted, _, startValue⟩ :=
          represents.convert_stop_beyond startInside stopBeyond
        rw [converted]
        exact .startAlone (beginsAt_iff.mpr ⟨startInside, startValue⟩)
          (beyond_iff.mpr stopBeyond)
    · have startBeyond := Nat.lt_of_not_le startInside
      rw [represents.convert_start_beyond startBeyond]
      exact .neither (beyond_iff.mpr startBeyond)

/-- What a pass makes of an extent in a place that it looks at is what the finding
settles it to, and nothing else. -/
theorem finding_settles_iff {fs : FileSystem} {place : List Component} {e after : Extent} :
    (fs.finding place).Settles e after ↔ after = e.settle (remembered (fs.observe place)) := by
  unfold FileSystem.finding FileSystem.observe
  cases fs.status place with
  | missing =>
    refine ⟨?_, fun same => same ▸ .missing e⟩
    rintro ⟨⟩
    rfl
  | notRegular =>
    refine ⟨?_, fun same => same ▸ .notRegular e⟩
    rintro ⟨⟩
    rfl
  | failed fault =>
    refine ⟨?_, fun same => same ▸ .failed e⟩
    rintro ⟨⟩
    rfl
  | regular =>
    cases fs.read place with
    | error fault =>
      refine ⟨?_, fun same => same ▸ .failed e⟩
      rintro ⟨⟩
      rfl
    | ok bytes =>
      dsimp only
      by_cases small : bytes.length < UInt32.size
      · obtain ⟨index, built, represents⟩ :=
          PositionIndex.ofContent_represents small (decodes_stepWidths bytes)
        rw [if_pos small, built]
        exact content_settles_iff represents
      · have refused : PositionIndex.ofContent bytes = .error (.tooLarge bytes.length) :=
          if_neg small
        rw [if_neg small, refused]
        refine ⟨?_, fun same => same ▸ .failed e⟩
        rintro ⟨⟩
        rfl

namespace Pass

/-- What a pass that is to be fed these batches will go by at a place: what it
knows, or else what it will find when it first comes there. -/
def outlook (p : Pass) (feeds : List Feed) (place : List Component) : Option PositionIndex :=
  (p.snapshot? place).getD
    ((firstLook p.root place feeds).bind fun fs => remembered (fs.observe place))

/-- An extent in bytes, by what the pass will go by at its place. -/
def settled (p : Pass) (feeds : List Feed) (e : Extent) : Extent :=
  if e.file = "" then e else e.settle (p.outlook feeds (placeOf p.root e.file))

/-- At the places of the next batch a pass will go by the files as they are now. -/
theorem settled_of_next {p : Pass} {feed : Feed} {later : List Feed} {e : Extent}
    (inside : e ∈ feed.batch.extents) :
    p.settled (feed :: later) e = p.converted feed.files e := by
  unfold settled converted
  by_cases fileless : e.file = ""
  · rw [if_pos fileless, if_pos fileless]
  · have named : ∃ f ∈ feed.batch.extents, f.LiesAt p.root (placeOf p.root e.file) :=
      ⟨e, inside, fileless, rfl⟩
    rw [if_neg fileless, if_neg fileless, outlook, firstLook, if_pos named, view]
    rfl

theorem settled_positions (p : Pass) (feeds : List Feed) (e : Extent) :
    p.settled feeds e =
      { e with start := (p.settled feeds e).start, stop := (p.settled feeds e).stop } := by
  have sameFile : (p.settled feeds e).file = e.file := by
    unfold settled
    split
    · rfl
    · exact Extent.settle_file e _
  generalize p.settled feeds e = after at sameFile
  cases after
  cases sameFile
  rfl

/-- Feeding a batch does not change what the pass will go by. -/
theorem outlook_after_feed (p : Pass) (feed : Feed) (later : List Feed)
    (place : List Component) :
    (p.feed feed.files feed.batch).1.outlook later place = p.outlook (feed :: later) place := by
  rw [outlook, outlook, feed_pass, steps_snapshot, steps_root, firstLook]
  by_cases named : ∃ e ∈ feed.batch.extents, e.LiesAt p.root place
  · rw [if_pos named, if_pos named]
    rfl
  · rw [if_neg named, if_neg named]

theorem settled_after_feed (p : Pass) (feed : Feed) (later : List Feed) :
    (p.feed feed.files feed.batch).1.settled later = p.settled (feed :: later) := by
  funext e
  rw [settled, settled, outlook_after_feed, feed_pass, steps_root]

/-- A run converts every span of every batch by the outlook of its beginning. -/
theorem run_batches (p : Pass) (feeds : List Feed) :
    (p.run feeds).2 = feeds.map fun feed => feed.batch.onExtents (p.settled feeds) := by
  induction feeds generalizing p with
  | nil => rfl
  | cons feed later ih =>
    have first : (p.feed feed.files feed.batch).2 =
        feed.batch.onExtents (p.settled (feed :: later)) := by
      rw [feed_batch]
      exact Batch.onExtents_congr fun e inside => (settled_of_next inside).symm
    have rest := ih (p.feed feed.files feed.batch).1
    rw [settled_after_feed] at rest
    rw [List.map_cons, ← first, ← rest]
    rfl

end Pass

theorem firstLook_of_mem (root : List Char) {feeds : List Feed} {feed : Feed} {e : Extent}
    (fed : feed ∈ feeds) (inside : e ∈ feed.batch.extents) (named : e.file ≠ "") :
    ∃ fs, firstLook root (placeOf root e.file) feeds = some fs := by
  induction feeds with
  | nil => cases fed
  | cons next later ih =>
    rw [firstLook]
    by_cases here : ∃ f ∈ next.batch.extents, f.LiesAt root (placeOf root e.file)
    · exact ⟨next.files, if_pos here⟩
    · rw [if_neg here]
      rcases List.mem_cons.mp fed with rfl | waiting
      · exact absurd ⟨e, inside, named, rfl⟩ here
      · exact ih waiting

/-- What becomes of a span in a run. Nothing changes but its two positions, and
these not without a file name; where there is one, what the first look in the run
found at its place allows one outcome. -/
structure SettledSpan {α : Type} [Spanned α] (root : List Char) (feeds : List Feed)
    (before after : α) : Prop where
  onlyPositions : after = Spanned.withExtent before
    { Spanned.extent before with
      start := (Spanned.extent after).start, stop := (Spanned.extent after).stop }
  fileless : (Spanned.extent before).file = "" → after = before
  settled : (Spanned.extent before).file ≠ "" →
    ∃ fs, firstLook root (placeOf root (Spanned.extent before).file) feeds = some fs ∧
      ∀ e, (fs.finding (placeOf root (Spanned.extent before).file)).Settles
        (Spanned.extent before) e ↔ e = Spanned.extent after

/-- What becomes of a batch in a run: no span is lost, added or moved. -/
structure SettledBatch (root : List Char) (feeds : List Feed) (before after : Batch) : Prop where
  definitions : List.Forall₂ (SettledSpan root feeds) before.definitions after.definitions
  references : List.Forall₂ (SettledSpan root feeds) before.references after.references
  documentation : List.Forall₂ (SettledSpan root feeds) before.documentation after.documentation

namespace Pass
variable {root : List Char} {config : ConversionConfig} {feeds : List Feed} {feed : Feed}

/-- A pass that knows nothing yet settles each span of a run by the first look. -/
theorem settledSpan_of_fresh {α : Type} [Spanned α] {a : α} (fed : feed ∈ feeds)
    (inside : Spanned.extent a ∈ feed.batch.extents) :
    SettledSpan root feeds a (onExtent (({ root, config } : Pass).settled feeds) a) := by
  have extent : Spanned.extent (onExtent (({ root, config } : Pass).settled feeds) a) =
      ({ root, config } : Pass).settled feeds (Spanned.extent a) := Spanned.extent_withExtent a _
  constructor
  · rw [extent, onExtent]
    exact congrArg (Spanned.withExtent a) (settled_positions _ feeds _)
  · intro fileless
    rw [onExtent, settled, if_pos fileless, Spanned.withExtent_extent]
  · intro named
    obtain ⟨fs, looked⟩ := firstLook_of_mem root fed inside named
    refine ⟨fs, looked, fun e => ?_⟩
    rw [extent, finding_settles_iff, settled, if_neg named, outlook, looked]
    rfl

theorem settledSpans_of_fresh {α : Type} [Spanned α] {spans : List α} (fed : feed ∈ feeds)
    (inside : ∀ a ∈ spans, Spanned.extent a ∈ feed.batch.extents) :
    List.Forall₂ (SettledSpan root feeds) spans
      (spans.map (onExtent (({ root, config } : Pass).settled feeds))) := by
  rw [List.forall₂_map_right_iff, List.forall₂_same]
  exact fun a member => settledSpan_of_fresh fed (inside a member)

/-- However the files change between the batches that a pass is fed, every span
ends up as its own positions and the first look at its own place decide. -/
theorem run_settles_by_first_look (root : List Char) (config : ConversionConfig)
    (feeds : List Feed) :
    List.Forall₂ (SettledBatch root feeds) (feeds.map Feed.batch)
      (({ root, config } : Pass).run feeds).2 := by
  rw [run_batches, List.forall₂_map_left_iff, List.forall₂_map_right_iff, List.forall₂_same]
  intro feed fed
  constructor
  · exact settledSpans_of_fresh fed fun a member => Batch.extent_of_definition member
  · exact settledSpans_of_fresh fed fun a member => Batch.extent_of_reference member
  · exact settledSpans_of_fresh fed fun a member => Batch.extent_of_documentation member

/-- A file that is gone at the second feed is still read as it was at the first. -/
example :
    let held : FileSystem :=
      { status := fun _ => .regular, read := fun _ => .ok (encode ['é', 'b']) }
    let gone : FileSystem := { status := fun _ => .missing, read := fun _ => .ok [] }
    let batch : Batch := { references := [{ extent := { file := "m", start := 1, stop := 3 } }] }
    (({ root := [] } : Pass).run [⟨held, batch⟩, ⟨gone, batch⟩]).2.map (·.references) =
      [[{ extent := { file := "m", start := 2, stop := 3 } }],
        [{ extent := { file := "m", start := 2, stop := 3 } }]] := by
  cbv

end Pass
end SymbolAtlas
