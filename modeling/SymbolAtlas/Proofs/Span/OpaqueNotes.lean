import SymbolAtlas.Proofs.Span.FirstLook
import SymbolAtlas.Span.Listing
import SymbolAtlas.Span.Normalize

/-! Nothing looks into the notes of definitions. Whatever is put in their place, every
stage does what it would have done: a pass looks at the same files and reports the same,
a definition comes to stand where it would have stood, also among others that compare
equal to it, and a normalization that is stopped is stopped at the same reference. The
new notes come out where the old ones would have. -/
namespace SymbolAtlas

/-- A definition with its notes put through a function. -/
def Definition.mapNotes (g : Json.Value → Json.Value) (d : Definition) : Definition :=
  { d with data := g d.data }

/-- A batch with the notes of every definition put through a function. -/
def Batch.mapNotes (g : Json.Value → Json.Value) (batch : Batch) : Batch :=
  { batch with definitions := batch.definitions.map (·.mapNotes g) }

/-- Feeds of the same batches with other notes, and the same files at each moment. -/
def Feed.mapNotes (g : Json.Value → Json.Value) (feed : Feed) : Feed :=
  { feed with batch := feed.batch.mapNotes g }

section
variable {α : Type}

/-- An order that takes no part in what a function changes sorts the same, also where it
tells nothing apart. -/
theorem sortedBy_map {order : α → α → Ordering} {f : α → α}
    (blind : ∀ a b, order (f a) (f b) = order a b) (spans : List α) :
    sortedBy order (spans.map f) = (sortedBy order spans).map f := by
  symm
  apply List.map_mergeSort
  intro a _ b _
  rw [blind]

theorem isSortedBy_map {order : α → α → Ordering} {f : α → α}
    (blind : ∀ a b, order (f a) (f b) = order a b) (spans : List α) :
    isSortedBy order (spans.map f) = isSortedBy order spans := by
  fun_induction isSortedBy order spans with
  | case1 => rfl
  | case2 a => rfl
  | case3 a b rest ih =>
    rw [List.map_cons] at ih
    rw [List.map_cons, List.map_cons, isSortedBy, blind, ih]

/-- A change that leaves extents alone makes no difference to a pass. -/
theorem Pass.fixAll_map [Spanned α] {f : α → α}
    (seen : ∀ a, Spanned.extent (f a) = Spanned.extent a)
    (kept : ∀ a e, Spanned.withExtent (f a) e = f (Spanned.withExtent a e))
    (p : Pass) (fs : FileSystem) (spans : List α) :
    p.fixAll fs (spans.map f) = ((p.fixAll fs spans).1, (p.fixAll fs spans).2.map f) := by
  induction spans generalizing p with
  | nil => rfl
  | cons a rest ih =>
    rw [List.map_cons, fixAll, fixAll, seen]
    dsimp only
    rw [ih, kept, List.map_cons]

end

/-- Notes take no part in the order of definitions. -/
theorem Definition.order_mapNotes (g : Json.Value → Json.Value) (a b : Definition) :
    Definition.order (a.mapNotes g) (b.mapNotes g) = Definition.order a b := rfl

namespace Pass

theorem feed_mapNotes (g : Json.Value → Json.Value) (p : Pass) (fs : FileSystem)
    (batch : Batch) :
    p.feed fs (batch.mapNotes g) = ((p.feed fs batch).1, (p.feed fs batch).2.mapNotes g) := by
  have definitions := fixAll_map (f := Definition.mapNotes g) (fun _ => rfl) (fun _ _ => rfl) p fs
    batch.definitions
  unfold feed Batch.mapNotes
  dsimp only
  rw [definitions]

/-- So whatever a pass is fed, and however the files change meanwhile, it does the same
and the batches that come out have the new notes. -/
theorem run_mapNotes (g : Json.Value → Json.Value) (p : Pass) (feeds : List Feed) :
    p.run (feeds.map (·.mapNotes g)) =
      ((p.run feeds).1, (p.run feeds).2.map (·.mapNotes g)) := by
  induction feeds generalizing p with
  | nil => rfl
  | cons feed later ih =>
    rw [List.map_cons, run, run, Feed.mapNotes, feed_mapNotes]
    dsimp only
    rw [ih, List.map_cons]

end Pass

namespace Batch
variable (g : Json.Value → Json.Value) (batch : Batch)

theorem sorted_mapNotes : (batch.mapNotes g).sorted = batch.sorted.mapNotes g := by
  rw [sorted, mapNotes, sortedBy_map (Definition.order_mapNotes g)]
  rfl

theorem isSorted_mapNotes : (batch.mapNotes g).isSorted = batch.isSorted := by
  rw [isSorted, mapNotes, isSortedBy_map (Definition.order_mapNotes g)]
  rfl

theorem listing_mapNotes : (batch.mapNotes g).listing = batch.listing := by
  have lines : (batch.mapNotes g).lines = batch.lines := by
    rw [Batch.lines, mapNotes, List.map_map]
    rfl
  rw [listing, listing, lines]

/-- Only the references decide whether a normalization is stopped, and where. -/
theorem normalize_mapNotes (config : NormalizationConfig) :
    (batch.mapNotes g).normalize config =
      ((batch.normalize config).1.mapNotes g, (batch.normalize config).2) := by
  unfold normalize
  cases config.canonicalizeRepos with
  | false =>
    rw [if_neg Bool.false_ne_true, if_neg Bool.false_ne_true, sorted_mapNotes]
  | true =>
    rw [if_pos rfl, if_pos rfl]
    dsimp only [mapNotes]
    obtain ⟨references, stopped⟩ := canonicalReferences batch.references
    cases stopped with
    | none => exact Prod.ext (sorted_mapNotes g { batch with references }) rfl
    | some e => rfl

/-- Putting the notes of definitions through any function commutes with everything that
is done to a batch. A pass that is given the new notes makes the same report and does
the same in the same order, wherever it stands and whatever it is fed; sorting and
normalization, also one that is stopped, give the same batch with the new notes; and
neither the test for order nor the listing tells the two apart. -/
theorem notes_are_opaque (fs : FileSystem) (root : String) (conversion : ConversionConfig)
    (normalization : NormalizationConfig) :
    (batch.mapNotes g).convert fs root conversion =
        ((batch.convert fs root conversion).1, (batch.convert fs root conversion).2.mapNotes g) ∧
      (∀ (p : Pass) (feeds : List Feed), p.run (feeds.map (·.mapNotes g)) =
        ((p.run feeds).1, (p.run feeds).2.map (·.mapNotes g))) ∧
      (batch.mapNotes g).sorted = batch.sorted.mapNotes g ∧
      (batch.mapNotes g).normalize normalization =
        ((batch.normalize normalization).1.mapNotes g, (batch.normalize normalization).2) ∧
      (batch.mapNotes g).isSorted = batch.isSorted ∧
      (batch.mapNotes g).listing = batch.listing := by
  refine ⟨?_, Pass.run_mapNotes g, ?_, ?_, ?_, ?_⟩
  · apply Pass.feed_mapNotes
  · apply sorted_mapNotes
  · apply normalize_mapNotes
  · apply isSorted_mapNotes
  · apply listing_mapNotes

end Batch
end SymbolAtlas
