import SymbolAtlas.Proofs.Span.Snapshot

/-! To a pass a batch is the sequence of its extents, taken one after another. What
each of them does to the pass is a step, and a batch is the run of its steps, so
what a step keeps is kept by whatever the pass is fed. A step makes one more place
known, with what the pass went by there, and never takes a failure back. -/
namespace SymbolAtlas
open PathName

/-- The extents of a batch in the order in which a pass comes to them. -/
def Batch.extents (batch : Batch) : List Extent :=
  batch.definitions.map Spanned.extent ++ batch.references.map Spanned.extent ++
    batch.documentation.map Spanned.extent

/-- The extent lies in the file at a place. -/
def Extent.LiesAt (root : List Char) (place : List Component) (e : Extent) : Prop :=
  e.file ≠ "" ∧ placeOf root e.file = place

instance (root : List Char) (place : List Component) (e : Extent) :
    Decidable (e.LiesAt root place) := inferInstanceAs (Decidable (_ ∧ _))

namespace Batch
variable {batch : Batch}

theorem extent_of_definition {d : Definition} (member : d ∈ batch.definitions) :
    Spanned.extent d ∈ batch.extents :=
  List.mem_append_left _ (List.mem_append_left _ (List.mem_map_of_mem member))

theorem extent_of_reference {r : Reference} (member : r ∈ batch.references) :
    Spanned.extent r ∈ batch.extents :=
  List.mem_append_left _ (List.mem_append_right _ (List.mem_map_of_mem member))

theorem extent_of_documentation {d : Documentation} (member : d ∈ batch.documentation) :
    Spanned.extent d ∈ batch.extents :=
  List.mem_append_right _ (List.mem_map_of_mem member)

theorem onExtents_congr {f g : Extent → Extent} (same : ∀ e ∈ batch.extents, f e = g e) :
    batch.onExtents f = batch.onExtents g := by
  have alike : ∀ {α : Type} [Spanned α] (a : α), Spanned.extent a ∈ batch.extents →
      onExtent f a = onExtent g a := by
    intro α _ a inside
    rw [onExtent, onExtent, same _ inside]
  rw [onExtents, onExtents,
    List.map_congr_left fun d member => alike d (extent_of_definition member),
    List.map_congr_left fun r member => alike r (extent_of_reference member),
    List.map_congr_left fun d member => alike d (extent_of_documentation member)]

end Batch

namespace Pass

/-- The pass once it has converted an extent. -/
def step (fs : FileSystem) (p : Pass) (e : Extent) : Pass := (p.fix fs e).1

theorem fixAll_pass {α : Type} [Spanned α] (p : Pass) (fs : FileSystem) (spans : List α) :
    (p.fixAll fs spans).1 = (spans.map Spanned.extent).foldl (step fs) p := by
  induction spans generalizing p with
  | nil => rfl
  | cons a rest ih => exact ih (p.step fs (Spanned.extent a))

/-- A batch takes a pass through the steps of its extents. -/
theorem feed_pass (p : Pass) (fs : FileSystem) (batch : Batch) :
    (p.feed fs batch).1 = batch.extents.foldl (step fs) p := by
  rw [Batch.extents, List.foldl_append, List.foldl_append, ← fixAll_pass, ← fixAll_pass,
    ← fixAll_pass]
  rfl

theorem step_root (fs : FileSystem) (p : Pass) (e : Extent) : (p.step fs e).root = p.root :=
  (fix_frame p fs e).1

/-- A step makes the place of its extent known, and no other. -/
theorem step_snapshot (fs : FileSystem) (p : Pass) (e : Extent) (place : List Component) :
    (p.step fs e).snapshot? place =
      if e.LiesAt p.root place then some (p.view fs place) else p.snapshot? place := by
  have known := (fix_frame p fs e).2
  rw [step, snapshot?, known]
  by_cases fileless : e.file = ""
  · have elsewhere : ¬ e.LiesAt p.root place := fun inside => inside.1 fileless
    rw [if_pos fileless, if_neg elsewhere, snapshot?]
  · have there : e.LiesAt p.root place ↔ place = placeOf p.root e.file :=
      ⟨fun inside => inside.2.symm, fun same => ⟨fileless, same.symm⟩⟩
    rw [if_neg fileless, ← snapshot?, lookup_snapshot]
    simp only [there, placeOf]

/-- A run of steps makes the places of its extents known, each with what the pass
went by before the run. -/
theorem steps_snapshot (fs : FileSystem) (p : Pass) (extents : List Extent)
    (place : List Component) :
    (extents.foldl (step fs) p).snapshot? place =
      if ∃ e ∈ extents, e.LiesAt p.root place then some (p.view fs place)
      else p.snapshot? place := by
  induction extents generalizing p with
  | nil => simp
  | cons e rest ih =>
    rw [List.foldl_cons, ih, step_root, step, fix_view, ← step, step_snapshot]
    by_cases here : e.LiesAt p.root place
    · simp [here]
    · simp [here]

theorem steps_root (fs : FileSystem) (p : Pass) (extents : List Extent) :
    (extents.foldl (step fs) p).root = p.root := by
  induction extents generalizing p with
  | nil => rfl
  | cons e rest ih => rw [List.foldl_cons, ih, step_root]

/-- Why an extent is not converted, or not to its end, if there is a reason to
report. A failure to look at a place is one only the first time. -/
def complaint? (fs : FileSystem) (p : Pass) (e : Extent) : Option SpanError :=
  if e.file = "" then none
  else match (p.lookup fs (resolve p.root e.file.toList)).2 with
    | .error error => some error
    | .ok none => none
    | .ok (some index) => (e.convert index).2.2

theorem lookup_failures (p : Pass) (fs : FileSystem) (path : List Char) :
    (p.lookup fs path).1.report.failures = p.report.failures := by
  unfold lookup
  cases p.snapshot? (components path) with
  | some found => rfl
  | none => exact (build_frame p fs path).2.2

/-- A step reports its complaint, under the path of its extent, after the failures
reported so far. -/
theorem step_failures (fs : FileSystem) (p : Pass) (e : Extent) :
    (p.step fs e).report.failures = p.report.failures ++
      ((p.complaint? fs e).map (⟨String.ofList (resolve p.root e.file.toList), ·⟩)).toList := by
  have kept := lookup_failures p fs (resolve p.root e.file.toList)
  unfold step fix complaint?
  by_cases fileless : e.file = ""
  · rw [if_pos fileless, if_pos fileless]
    exact (List.append_nil _).symm
  · rw [if_neg fileless, if_neg fileless]
    dsimp only
    revert kept
    obtain ⟨after, looked⟩ := p.lookup fs (resolve p.root e.file.toList)
    intro kept
    cases looked with
    | error error => exact congrArg (· ++ _) kept
    | ok found =>
      cases found with
      | none => exact kept.trans (List.append_nil _).symm
      | some index =>
        dsimp only
        obtain ⟨settled, translated, failed⟩ := e.convert index
        cases failed with
        | none => exact kept.trans (List.append_nil _).symm
        | some error => exact congrArg (· ++ _) kept

/-- A failure that is reported stays reported. -/
theorem steps_failures (fs : FileSystem) (p : Pass) (extents : List Extent) :
    p.report.failures <+: (extents.foldl (step fs) p).report.failures := by
  induction extents generalizing p with
  | nil => exact List.prefix_refl _
  | cons e rest ih =>
    have reported : p.report.failures <+: (p.step fs e).report.failures := by
      rw [step_failures]
      exact List.prefix_append _ _
    exact reported.trans (ih (p.step fs e))

/-- Whatever stops the conversion of an extent that has an index is reported. -/
theorem stopped_is_reported {fs : FileSystem} {p : Pass} {extents : List Extent} {e : Extent}
    {index : PositionIndex} {error : SpanError} (inside : e ∈ extents) (named : e.file ≠ "")
    (indexed : p.view fs (placeOf p.root e.file) = some index)
    (stopped : (e.convert index).2.2 = some error) :
    ∃ failure ∈ (extents.foldl (step fs) p).report.failures, failure.error = error := by
  induction extents generalizing p with
  | nil => cases inside
  | cons first rest ih =>
    rw [List.foldl_cons]
    rcases List.mem_cons.mp inside with rfl | later
    · have looked : (p.lookup fs (resolve p.root e.file.toList)).2 = .ok (some index) := by
        rw [← remembered_eq_some_iff, lookup_view]
        exact indexed
      have complained : p.complaint? fs e = some error := by
        rw [complaint?, if_neg named, looked]
        exact stopped
      refine ⟨⟨String.ofList (resolve p.root e.file.toList), error⟩,
        (steps_failures fs (p.step fs e) rest).subset ?_, rfl⟩
      rw [step_failures, complained]
      exact List.mem_append_right _ (List.mem_singleton_self _)
    · refine ih later ?_
      rw [step_root, step, fix_view, indexed]

end Pass
end SymbolAtlas
