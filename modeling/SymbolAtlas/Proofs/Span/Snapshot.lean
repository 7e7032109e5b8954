import SymbolAtlas.Span.Conversion

/-! A pass knows of each place what its first look found there, and that decides
what becomes of every span in the place. While the files stay as they are, a first
look finds the same whenever it is made, so a pass maps every span by itself:
what the other spans are, and which of them came first, makes no difference. -/
namespace SymbolAtlas
open PathName

/-- What a look at a place finds: an index, nothing to index, or a failure. -/
def FileSystem.observe (fs : FileSystem) (place : List Component) :
    Except SpanError (Option PositionIndex) :=
  match fs.status place with
  | .missing | .notRegular => .ok none
  | .failed fault => .error (.unreadable fault)
  | .regular =>
    match fs.read place with
    | .error fault => .error (.unreadable fault)
    | .ok content => (PositionIndex.ofContent content).map some

/-- What is kept of a look: a failure is kept as nothing to index. -/
def remembered : Except SpanError (Option PositionIndex) → Option PositionIndex
  | .ok found => found
  | .error _ => none

theorem remembered_eq_some_iff {found : Except SpanError (Option PositionIndex)}
    {index : PositionIndex} : remembered found = some index ↔ found = .ok (some index) := by
  cases found with
  | error error => simp [remembered]
  | ok found => simp [remembered]

/-- An extent in bytes as far as the index of its file allows. -/
def Extent.settle (e : Extent) : Option PositionIndex → Extent
  | none => e
  | some index => (e.convert index).1

theorem Extent.settle_file (e : Extent) (found : Option PositionIndex) :
    (e.settle found).file = e.file := by
  cases found with
  | none => rfl
  | some index =>
    simp only [Extent.settle, Extent.convert]
    split
    · rfl
    · split <;> rfl

/-- The place of a file under a root. -/
def placeOf (root : List Char) (file : String) : List Component :=
  components (resolve root file.toList)

/-- An extent in bytes, by the file at its place and nothing else. -/
def Extent.inBytes (fs : FileSystem) (root : List Char) (e : Extent) : Extent :=
  if e.file = "" then e else e.settle (remembered (fs.observe (placeOf root e.file)))

/-- A span with its extent put through a function. Nothing else of it changes. -/
def onExtent {α : Type} [Spanned α] (f : Extent → Extent) (a : α) : α :=
  Spanned.withExtent a (f (Spanned.extent a))

/-- A batch with the extent of every span put through a function. No span is lost
or added, and each stays in its place. -/
def Batch.onExtents (f : Extent → Extent) (batch : Batch) : Batch where
  definitions := batch.definitions.map (onExtent f)
  references := batch.references.map (onExtent f)
  documentation := batch.documentation.map (onExtent f)

/-- A span in bytes. Nothing of it changes but its extent. -/
def inBytes {α : Type} [Spanned α] (fs : FileSystem) (root : List Char) (a : α) : α :=
  Spanned.withExtent a ((Spanned.extent a).inBytes fs root)

/-- A batch with every span in bytes, in the order in which they were. -/
def Batch.inBytes (fs : FileSystem) (root : List Char) (batch : Batch) : Batch where
  definitions := batch.definitions.map (SymbolAtlas.inBytes fs root)
  references := batch.references.map (SymbolAtlas.inBytes fs root)
  documentation := batch.documentation.map (SymbolAtlas.inBytes fs root)

namespace Pass

/-- A first look reports what is there. -/
theorem build_observes (p : Pass) (fs : FileSystem) (path : List Char) :
    (p.build fs path).2 = fs.observe (components path) := by
  unfold build FileSystem.observe
  dsimp only
  cases fs.status (components path) with
  | missing => rfl
  | notRegular => rfl
  | failed fault => rfl
  | regular =>
    dsimp only
    cases fs.read (components path) with
    | error fault => rfl
    | ok content =>
      dsimp only
      cases PositionIndex.ofContent content <;> rfl

/-- Looking changes neither the root of a pass nor what it knows, and reports no
failure yet. -/
theorem build_frame (p : Pass) (fs : FileSystem) (path : List Char) :
    (p.build fs path).1.root = p.root ∧ (p.build fs path).1.known = p.known ∧
      (p.build fs path).1.report.failures = p.report.failures := by
  unfold build
  dsimp only
  cases fs.status (components path) with
  | missing => exact ⟨rfl, rfl, rfl⟩
  | notRegular => exact ⟨rfl, rfl, rfl⟩
  | failed fault => exact ⟨rfl, rfl, rfl⟩
  | regular =>
    dsimp only
    cases fs.read (components path) with
    | error fault => exact ⟨rfl, rfl, rfl⟩
    | ok content =>
      dsimp only
      cases PositionIndex.ofContent content <;> exact ⟨rfl, rfl, rfl⟩

/-- What a pass goes by at a place: what it knows, or else what it would find. -/
def view (p : Pass) (fs : FileSystem) (place : List Component) : Option PositionIndex :=
  (p.snapshot? place).getD (remembered (fs.observe place))

/-- A lookup gives what the pass goes by, apart from the failure of a first look. -/
theorem lookup_view (p : Pass) (fs : FileSystem) (path : List Char) :
    remembered (p.lookup fs path).2 = p.view fs (components path) := by
  unfold lookup view
  cases p.snapshot? (components path) with
  | some found => rfl
  | none => exact congrArg remembered (build_observes p fs path)

theorem lookup_root (p : Pass) (fs : FileSystem) (path : List Char) :
    (p.lookup fs path).1.root = p.root := by
  unfold lookup
  cases p.snapshot? (components path) with
  | some found => rfl
  | none => exact (build_frame p fs path).1

/-- After a lookup the pass knows the place, and of all others what it knew. -/
theorem lookup_snapshot (p : Pass) (fs : FileSystem) (path : List Char)
    (place : List Component) :
    (p.lookup fs path).1.snapshot? place =
      if place = components path then some (p.view fs place) else p.snapshot? place := by
  unfold lookup
  cases known : p.snapshot? (components path) with
  | some found =>
    by_cases same : place = components path
    · rw [if_pos same, same, view, known, Option.getD_some]
    · rw [if_neg same]
  | none =>
    have kept := (build_frame p fs path).2.1
    have observed := build_observes p fs path
    unfold snapshot? at known ⊢
    dsimp only
    rw [List.find?_cons, kept]
    by_cases same : place = components path
    · subst same
      simp only [decide_true, view, snapshot?, known, ← observed, if_true]
      rfl
    · simp [same, Ne.symm same]

/-- What the pass goes by is not changed by looking. -/
theorem lookup_view_unchanged (p : Pass) (fs : FileSystem) (path : List Char)
    (place : List Component) : (p.lookup fs path).1.view fs place = p.view fs place := by
  rw [view, lookup_snapshot]
  by_cases same : place = components path
  · rw [if_pos same, Option.getD_some]
  · rw [if_neg same, view]

/-- An extent in bytes, by what the pass goes by at its place. -/
def converted (p : Pass) (fs : FileSystem) (e : Extent) : Extent :=
  if e.file = "" then e else e.settle (p.view fs (placeOf p.root e.file))

theorem fix_extent (p : Pass) (fs : FileSystem) (e : Extent) :
    (p.fix fs e).2 = p.converted fs e := by
  have seen := lookup_view p fs (resolve p.root e.file.toList)
  unfold fix converted placeOf
  by_cases fileless : e.file = ""
  · rw [if_pos fileless, if_pos fileless]
  · rw [if_neg fileless, if_neg fileless, ← seen]
    dsimp only
    obtain ⟨after, looked⟩ := p.lookup fs (resolve p.root e.file.toList)
    cases looked with
    | error error => rfl
    | ok found =>
      cases found with
      | none => rfl
      | some index =>
        dsimp only [remembered, Extent.settle]
        obtain ⟨settled, translated, failed⟩ := e.convert index
        cases failed with
        | none => rfl
        | some error => rfl

/-- Converting a span leaves the root alone, and what is known of places but for
the one look. -/
theorem fix_frame (p : Pass) (fs : FileSystem) (e : Extent) :
    (p.fix fs e).1.root = p.root ∧
      (p.fix fs e).1.known =
        if e.file = "" then p.known
        else (p.lookup fs (resolve p.root e.file.toList)).1.known := by
  have kept := lookup_root p fs (resolve p.root e.file.toList)
  unfold fix
  by_cases fileless : e.file = ""
  · rw [if_pos fileless, if_pos fileless]
    exact ⟨rfl, rfl⟩
  · rw [if_neg fileless, if_neg fileless]
    dsimp only
    revert kept
    obtain ⟨after, looked⟩ := p.lookup fs (resolve p.root e.file.toList)
    intro kept
    cases looked with
    | error error => exact ⟨kept, rfl⟩
    | ok found =>
      cases found with
      | none => exact ⟨kept, rfl⟩
      | some index =>
        dsimp only
        obtain ⟨settled, translated, failed⟩ := e.convert index
        cases failed with
        | none => exact ⟨kept, rfl⟩
        | some error => exact ⟨kept, rfl⟩

theorem view_of_known {p q : Pass} (same : p.known = q.known) (fs : FileSystem)
    (place : List Component) : p.view fs place = q.view fs place := by
  rw [view, view, snapshot?, snapshot?, same]

/-- What a pass goes by is not changed by the spans that it converts. -/
theorem fix_view (p : Pass) (fs : FileSystem) (e : Extent) (place : List Component) :
    (p.fix fs e).1.view fs place = p.view fs place := by
  have known := (fix_frame p fs e).2
  split at known
  · exact view_of_known known fs place
  · exact (view_of_known known fs place).trans (lookup_view_unchanged p fs _ place)

/-- So it goes on converting as it would have before. -/
theorem fix_converted (p : Pass) (fs : FileSystem) (e : Extent) :
    (p.fix fs e).1.converted fs = p.converted fs := by
  funext other
  rw [converted, converted, (fix_frame p fs e).1, fix_view]

variable {α : Type} [Spanned α]

/-- A pass converts each of several spans by itself. -/
theorem fixAll_spans (p : Pass) (fs : FileSystem) (spans : List α) :
    (p.fixAll fs spans).2 = spans.map (onExtent (p.converted fs)) ∧
      (p.fixAll fs spans).1.converted fs = p.converted fs := by
  induction spans generalizing p with
  | nil => exact ⟨rfl, rfl⟩
  | cons a rest ih =>
    obtain ⟨mapped, later⟩ := ih (p.fix fs (Spanned.extent a)).1
    rw [fix_converted] at mapped later
    refine ⟨?_, later⟩
    simp only [fixAll, mapped, fix_extent, List.map_cons, onExtent]

/-- A pass converts each span of a batch by itself. -/
theorem feed_batch (p : Pass) (fs : FileSystem) (batch : Batch) :
    (p.feed fs batch).2 = batch.onExtents (p.converted fs) := by
  obtain ⟨definitions, afterDefinitions⟩ := fixAll_spans p fs batch.definitions
  obtain ⟨references, afterReferences⟩ :=
    fixAll_spans (p.fixAll fs batch.definitions).1 fs batch.references
  obtain ⟨documentation, _⟩ := fixAll_spans
    ((p.fixAll fs batch.definitions).1.fixAll fs batch.references).1 fs batch.documentation
  rw [afterReferences] at documentation
  rw [afterDefinitions] at references documentation
  simp only [feed, Batch.onExtents, definitions, references, documentation]

end Pass

/-- In a pass of its own a batch is converted span by span, each by the file at its
place. -/
theorem convert_batch (fs : FileSystem) (root : String) (config : ConversionConfig)
    (batch : Batch) : (batch.convert fs root config).2 = batch.inBytes fs root.toList := by
  rw [Batch.convert, Pass.feed_batch]
  rfl

end SymbolAtlas
