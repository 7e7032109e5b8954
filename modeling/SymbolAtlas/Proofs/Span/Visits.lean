import SymbolAtlas.Proofs.Span.FirstLook

/-! A run comes to one extent after another, and the files are at each moment as they
are. What the run does at an extent is told by the extent, by what it has come to
before, and by what was seen when it first came to the place: only a first visit
asks the file system and says what was seen, and a visit whose extent cannot be
converted to its end complains. A run does what its visits say, one after the other,
and its report adds up what they come to. -/
namespace SymbolAtlas
open PathName

/-- What there is at a place for a pass that wants to index it. -/
inductive Sight where
  | missing
  | notRegular
  /-- There is something, but it cannot be looked at, read or indexed. -/
  | unreadable (error : SpanError)
  | indexed (index : PositionIndex)
  deriving DecidableEq

/-- What is to be seen at a place. -/
def FileSystem.sight (fs : FileSystem) (place : List Component) : Sight :=
  match fs.status place with
  | .missing => .missing
  | .notRegular => .notRegular
  | .failed fault => .unreadable (.unreadable fault)
  | .regular =>
    match fs.read place with
    | .error fault => .unreadable (.unreadable fault)
    | .ok content =>
      match PositionIndex.ofContent content with
      | .error error => .unreadable error
      | .ok index => .indexed index

namespace Sight

/-- The index to go by from then on, if there is one. -/
def kept : Sight → Option PositionIndex
  | .indexed index => some index
  | _ => none

/-- What the first visit is told. -/
def outcome : Sight → Except SpanError (Option PositionIndex)
  | .unreadable error => .error error
  | seen => .ok seen.kept

def isIndexed : Sight → Bool
  | .indexed _ => true
  | _ => false

/-- What the log says of a place that is seen for the first time. -/
def event? (warnMissing : Bool) (path : String) : Sight → Option Event
  | .missing => some (.missingFile (if warnMissing then .warn else .debug) path)
  | .notRegular => some (.notRegular path)
  | .unreadable _ => none
  | .indexed index => some (.indexed path index.charCount index.byteLength)

theorem remembered_outcome (seen : Sight) : remembered seen.outcome = seen.kept := by
  cases seen <;> rfl

end Sight

theorem FileSystem.observe_eq_outcome (fs : FileSystem) (place : List Component) :
    fs.observe place = (fs.sight place).outcome := by
  unfold observe sight
  cases fs.status place with
  | missing => rfl
  | notRegular => rfl
  | failed fault => rfl
  | regular =>
    dsimp only
    cases fs.read place with
    | error fault => rfl
    | ok content =>
      dsimp only
      cases PositionIndex.ofContent content <;> rfl

/-- What has to be asked of the file system to see what is at a place: its status,
and its bytes if there are any. -/
def FileSystem.accesses (fs : FileSystem) (place : List Component) : List Act :=
  .asksStatus place :: if fs.status place = .regular then [.reads place] else []

/-! ### Positions -/

/-- Both positions of an extent, in the order in which they are converted. -/
def Extent.positions (e : Extent) : List UInt32 := [e.start, e.stop]

/-- The complaint about the first position beyond the last code point. -/
def PositionIndex.refusal? (index : PositionIndex) (e : Extent) : Option SpanError :=
  (e.positions.find? (index.charCount < ·)).map (.outOfRange · index.charCount)

/-- How many positions are rewritten: those before the first one beyond the last code
point, except where none is set. -/
def PositionIndex.rewrites (index : PositionIndex) (e : Extent) : Nat :=
  (e.positions.takeWhile (· ≤ index.charCount)).countP (· ≠ 0)

theorem PositionIndex.convert_cases (index : PositionIndex) (position : UInt32) :
    (position ≤ index.charCount ∧
      ∃ offset, index.convert position = .ok (offset, if position ≠ 0 then 1 else 0)) ∨
    (index.charCount < position ∧
      index.convert position = .error (.outOfRange position index.charCount)) := by
  unfold convert byteOffset
  by_cases unset : position = 0
  · left
    rw [if_pos unset, unset]
    exact ⟨UInt32.zero_le, 0, rfl⟩
  · rw [if_neg unset]
    by_cases beyond : index.charCount < position
    · right
      rw [if_pos beyond]
      exact ⟨beyond, rfl⟩
    · left
      rw [if_neg beyond, if_pos unset]
      exact ⟨UInt32.not_lt.mp beyond, _, rfl⟩

/-- Converting an extent counts the positions that it rewrites and stops at the first
one that it refuses. -/
theorem Extent.convert_counts (index : PositionIndex) (e : Extent) :
    (e.convert index).2 = (index.rewrites e, index.refusal? e) := by
  unfold convert PositionIndex.rewrites PositionIndex.refusal? positions
  rcases index.convert_cases e.start with ⟨startInside, start, startConverted⟩ | ⟨beyond, refused⟩
  · rw [startConverted]
    have notBeyond : ¬ index.charCount < e.start := UInt32.not_lt.mpr startInside
    rcases index.convert_cases e.stop with ⟨stopInside, stop, stopConverted⟩ | ⟨beyond, refused⟩
    · have within : ¬ index.charCount < e.stop := UInt32.not_lt.mpr stopInside
      rw [stopConverted]
      simp [startInside, stopInside, notBeyond, within, List.countP_cons, Nat.add_comm]
    · have outside : ¬ e.stop ≤ index.charCount := UInt32.not_le.mpr beyond
      rw [refused]
      simp [startInside, notBeyond, outside, beyond, List.countP_cons]
  · have outside : ¬ e.start ≤ index.charCount := UInt32.not_le.mpr beyond
    rw [refused]
    simp [outside, beyond]

/-! ### Visits -/

/-- An extent with the files as they are when a run comes to it. -/
structure Moment where
  files : FileSystem
  extent : Extent

/-- A moment of a run, after those that came before it. -/
structure Visit where
  earlier : List Moment
  now : Moment

/-- The moments of a run: the extents of each batch, in their order. -/
def moments (feeds : List Feed) : List Moment :=
  feeds.flatMap fun feed => feed.batch.extents.map (⟨feed.files, ·⟩)

/-- The visits of the moments that follow earlier ones. -/
def visitsAfter (earlier : List Moment) : List Moment → List Visit
  | [] => []
  | now :: later => ⟨earlier, now⟩ :: visitsAfter (earlier ++ [now]) later

/-- All visits of a run. -/
def visits (feeds : List Feed) : List Visit := visitsAfter [] (moments feeds)

/-- What was to be seen at a place when a run first came to it. -/
def firstSight? (root : List Char) (place : List Component) (moments : List Moment) :
    Option Sight :=
  (moments.find? (·.extent.LiesAt root place)).map (·.files.sight place)

namespace Visit
variable (root : List Char) (v : Visit)

def place : List Component := placeOf root v.now.extent.file

/-- The path of the file as the log and the report show it. -/
def path : String := String.ofList (resolve root v.now.extent.file.toList)

/-- No earlier moment of the run lies at the place. -/
def IsFirst : Prop := ∀ m ∈ v.earlier, ¬ m.extent.LiesAt root (v.place root)

instance : Decidable (v.IsFirst root) := inferInstanceAs (Decidable (∀ m ∈ v.earlier, _))

/-- What decides about the visit: what was seen at its place when the run first came
there, now or earlier. There is nothing without a file name. -/
def sight? : Option Sight :=
  if v.now.extent.file = "" then none
  else firstSight? root (v.place root) (v.earlier ++ [v.now])

/-- Why the extent is not converted to its end, if that is to be reported. What
cannot be read is reported only once. -/
def complaint? : Option SpanError :=
  match v.sight? root with
  | some (.unreadable error) => if v.IsFirst root then some error else none
  | some (.indexed index) => index.refusal? v.now.extent
  | _ => none

/-- The entry of the report, if there is one. -/
def failure? : Option Failure := (v.complaint? root).map (⟨v.path root, ·⟩)

/-- How many positions are rewritten. -/
def rewritten : Nat :=
  match v.sight? root with
  | some (.indexed index) => index.rewrites v.now.extent
  | _ => 0

/-- Whether the extent is left alone without a complaint of its own. -/
def isSkipped : Bool :=
  match v.sight? root with
  | none | some .missing | some .notRegular => true
  | some (.unreadable _) => !decide (v.IsFirst root)
  | some (.indexed _) => false

/-- Whether the file is indexed now. -/
def indexes : Bool := decide (v.IsFirst root) && (v.sight? root).any Sight.isIndexed

/-- What is done to learn what is at the place: nothing if that is known already. -/
def looks (warnMissing : Bool) : List Act :=
  match v.sight? root with
  | none => []
  | some seen =>
    if v.IsFirst root then
      v.now.files.accesses (v.place root) ++
        (seen.event? warnMissing (v.path root)).toList.map .logs
    else []

/-- Everything that is done, in order. -/
def acts (warnMissing : Bool) : List Act :=
  v.looks root warnMissing ++
    (v.complaint? root).toList.map fun error => .logs (.spanFailed (v.path root) error)

variable {root v}

theorem sight?_of_fileless (fileless : v.now.extent.file = "") : v.sight? root = none :=
  if_pos fileless

theorem sight?_of_known {seen : Sight} (named : v.now.extent.file ≠ "")
    (known : firstSight? root (v.place root) v.earlier = some seen) :
    v.sight? root = some seen ∧ ¬ v.IsFirst root := by
  obtain ⟨m, found, rfl⟩ := Option.map_eq_some_iff.mp known
  constructor
  · rw [sight?, if_neg named, firstSight?, List.find?_append, found]
    rfl
  · intro first
    exact first m (List.mem_of_find?_eq_some found) (by simpa using List.find?_some found)

theorem sight?_of_new (named : v.now.extent.file ≠ "")
    (new : firstSight? root (v.place root) v.earlier = none) :
    v.sight? root = some (v.now.files.sight (v.place root)) ∧ v.IsFirst root := by
  have absent := Option.map_eq_none_iff.mp new
  have here : v.now.extent.LiesAt root (v.place root) := ⟨named, rfl⟩
  constructor
  · rw [sight?, if_neg named, firstSight?, List.find?_append, absent]
    simp [here]
  · intro m member
    simpa using List.find?_eq_none.mp absent m member

end Visit

/-- A report with one more visit. -/
def Report.after (report : Report) (root : List Char) (v : Visit) : Report where
  translated := report.translated + v.rewritten root
  skipped := report.skipped + (v.isSkipped root).toNat
  indexedFiles := report.indexedFiles + (v.indexes root).toNat
  failures := report.failures ++ (v.failure? root).toList

namespace Pass

/-- A first look asks for what it needs, logs what is seen and counts an index. -/
theorem build_eq (p : Pass) (fs : FileSystem) (path : List Char) :
    p.build fs path =
      ({ p with
          report := { p.report with
            indexedFiles := p.report.indexedFiles + (fs.sight (components path)).isIndexed.toNat }
          trace := p.trace ++ (fs.accesses (components path) ++
            ((fs.sight (components path)).event? p.config.warnMissingFiles
              (String.ofList path)).toList.map .logs) },
        (fs.sight (components path)).outcome) := by
  unfold build FileSystem.sight FileSystem.accesses
  dsimp only
  cases fs.status (components path) with
  | missing =>
    cases warns : p.config.warnMissingFiles <;>
      simp [act, log, Sight.isIndexed, Sight.outcome, Sight.kept, Sight.event?, warns]
  | notRegular => simp [act, log, Sight.isIndexed, Sight.outcome, Sight.kept, Sight.event?]
  | failed fault => simp [act, Sight.isIndexed, Sight.outcome, Sight.event?]
  | regular =>
    dsimp only
    cases fs.read (components path) with
    | error fault => simp [act, Sight.isIndexed, Sight.outcome, Sight.event?]
    | ok content =>
      dsimp only
      cases PositionIndex.ofContent content with
      | error error => simp [act, Sight.isIndexed, Sight.outcome, Sight.event?]
      | ok index =>
        simp [act, log, Sight.isIndexed, Sight.outcome, Sight.kept, Sight.event?]

variable {p q : Pass} {fs : FileSystem} {path : List Char} {e : Extent}
  {told : Except SpanError (Option PositionIndex)}

theorem lookup_of_known {found : Option PositionIndex}
    (known : p.snapshot? (components path) = some found) :
    p.lookup fs path = (p, .ok found) := by
  rw [lookup, known]

theorem lookup_of_new (new : p.snapshot? (components path) = none) :
    p.lookup fs path =
      ({ p with
          known := (components path, (fs.sight (components path)).kept) :: p.known
          report := { p.report with
            indexedFiles := p.report.indexedFiles + (fs.sight (components path)).isIndexed.toNat }
          trace := p.trace ++ (fs.accesses (components path) ++
            ((fs.sight (components path)).event? p.config.warnMissingFiles
              (String.ofList path)).toList.map .logs) },
        (fs.sight (components path)).outcome) := by
  rw [lookup, new, build_eq, ← Sight.remembered_outcome]
  rfl

/-- What an extent is told to complain of. -/
def complaintOf (e : Extent) : Except SpanError (Option PositionIndex) → Option SpanError
  | .error error => some error
  | .ok none => none
  | .ok (some index) => index.refusal? e

/-- How many positions of an extent are rewritten by what it is told. -/
def rewritesOf (e : Extent) : Except SpanError (Option PositionIndex) → Nat
  | .ok (some index) => index.rewrites e
  | _ => 0

/-- Whether an extent is told to stay as it is. -/
def leavesAlone : Except SpanError (Option PositionIndex) → Bool
  | .ok none => true
  | _ => false

/-- Once its file has been looked up, an extent is left alone, or it is converted and
complains of what stopped it. -/
theorem fix_effect (named : e.file ≠ "")
    (looked : p.lookup fs (resolve p.root e.file.toList) = (q, told)) :
    let path := String.ofList (resolve p.root e.file.toList)
    (p.fix fs e).1.report =
      { q.report with
        translated := q.report.translated + rewritesOf e told
        skipped := q.report.skipped + (leavesAlone told).toNat
        failures := q.report.failures ++ ((complaintOf e told).map (⟨path, ·⟩)).toList } ∧
    (p.fix fs e).1.trace =
      q.trace ++ (complaintOf e told).toList.map (.logs <| .spanFailed path ·) ∧
    (p.fix fs e).1.config = q.config := by
  unfold fix
  rw [if_neg named]
  simp only [looked]
  cases told with
  | error error => simp [fail, log, act, complaintOf, rewritesOf, leavesAlone]
  | ok found =>
    cases found with
    | none => simp [skip, complaintOf, rewritesOf, leavesAlone]
    | some index =>
      have counts := Extent.convert_counts index e
      revert counts
      dsimp only
      obtain ⟨settled, translated, failed⟩ := e.convert index
      rintro ⟨⟩
      cases refused : index.refusal? e with
      | none => simp [countTranslated, complaintOf, rewritesOf, leavesAlone, refused]
      | some error =>
        simp [countTranslated, fail, log, act, complaintOf, rewritesOf, leavesAlone, refused]

/-- What a pass knows is what it saw when it first came to each place. -/
structure Recalls (p : Pass) (root : List Char) (earlier : List Moment) : Prop where
  rooted : p.root = root
  known : ∀ place, p.snapshot? place = (firstSight? root place earlier).map Sight.kept

variable {root : List Char} {v : Visit}

/-- What a visit does to a pass that recalls the earlier ones. -/
theorem step_visit (recalls : p.Recalls root v.earlier) :
    (p.step v.now.files v.now.extent).report = p.report.after root v ∧
      (p.step v.now.files v.now.extent).trace =
        p.trace ++ v.acts root p.config.warnMissingFiles ∧
      (p.step v.now.files v.now.extent).config = p.config := by
  unfold step
  by_cases fileless : v.now.extent.file = ""
  · have unseen : v.sight? root = none := Visit.sight?_of_fileless fileless
    rw [fix, if_pos fileless]
    simp [skip, Report.after, Visit.rewritten, Visit.isSkipped, Visit.indexes, Visit.failure?,
      Visit.complaint?, Visit.acts, Visit.looks, unseen]
  · have known := recalls.known (v.place root)
    rw [← recalls.rooted] at known ⊢
    cases before : firstSight? p.root (v.place p.root) v.earlier with
    | some seen =>
      obtain ⟨decided, later⟩ := Visit.sight?_of_known fileless before
      rw [before] at known
      obtain ⟨report, trace, config⟩ := fix_effect fileless (lookup_of_known known)
      rw [report, trace, config]
      cases seen <;>
        simp [Sight.kept, complaintOf, rewritesOf, leavesAlone, Report.after, Visit.rewritten,
          Visit.isSkipped, Visit.indexes, Visit.failure?, Visit.complaint?, Visit.acts,
          Visit.looks, Visit.path, decided, later]
    | none =>
      obtain ⟨decided, first⟩ := Visit.sight?_of_new fileless before
      rw [before] at known
      obtain ⟨report, trace, config⟩ := fix_effect fileless (lookup_of_new known)
      rw [report, trace, config, ← placeOf, ← Visit.place]
      cases seen : v.now.files.sight (v.place p.root) <;>
        simp [Sight.kept, Sight.outcome, Sight.isIndexed, complaintOf, rewritesOf, leavesAlone,
          Report.after, Visit.rewritten, Visit.isSkipped, Visit.indexes, Visit.failure?,
          Visit.complaint?, Visit.acts, Visit.looks, Visit.path, decided, first, seen]

/-- It recalls the visit as well. -/
theorem step_recalls (recalls : p.Recalls root v.earlier) :
    (p.step v.now.files v.now.extent).Recalls root (v.earlier ++ [v.now]) := by
  refine ⟨(step_root _ _ _).trans recalls.rooted, fun place => ?_⟩
  rw [step_snapshot, recalls.rooted, view, recalls.known, FileSystem.observe_eq_outcome,
    Sight.remembered_outcome, firstSight?, firstSight?, List.find?_append]
  cases v.earlier.find? (·.extent.LiesAt root place) with
  | some m => simp
  | none => by_cases here : v.now.extent.LiesAt root place <;> simp [here]

/-- A run of visits adds up what each of them comes to. -/
theorem steps_visits {earlier : List Moment} (recalls : p.Recalls root earlier)
    (later : List Moment) :
    (later.foldl (fun p m => p.step m.files m.extent) p).report =
        (visitsAfter earlier later).foldl (·.after root ·) p.report ∧
      (later.foldl (fun p m => p.step m.files m.extent) p).trace =
        p.trace ++ (visitsAfter earlier later).flatMap (·.acts root p.config.warnMissingFiles) := by
  induction later generalizing p earlier with
  | nil => exact ⟨rfl, (List.append_nil _).symm⟩
  | cons now later ih =>
    obtain ⟨report, trace, config⟩ := step_visit (v := ⟨earlier, now⟩) recalls
    obtain ⟨reports, traces⟩ := ih (step_recalls (v := ⟨earlier, now⟩) recalls)
    rw [List.foldl_cons, visitsAfter, List.foldl_cons, List.flatMap_cons]
    rw [reports, traces, report, trace, config]
    exact ⟨rfl, List.append_assoc _ _ _⟩

/-- A run is the run of its visits. -/
theorem run_pass (p : Pass) (feeds : List Feed) :
    (p.run feeds).1 = (moments feeds).foldl (fun p m => p.step m.files m.extent) p := by
  induction feeds generalizing p with
  | nil => rfl
  | cons feed later ih =>
    rw [moments, List.flatMap_cons, List.foldl_append, List.foldl_map, ← moments]
    refine (ih (p.feed feed.files feed.batch).1).trans ?_
    rw [feed_pass]

theorem recalls_of_fresh (root : List Char) (config : ConversionConfig) :
    ({ root, config } : Pass).Recalls root [] := ⟨rfl, fun _ => rfl⟩

end Pass

theorem foldl_after (root : List Char) (report : Report) (vs : List Visit) :
    vs.foldl (·.after root ·) report =
      { translated := report.translated + (vs.map (·.rewritten root)).sum
        skipped := report.skipped + vs.countP (·.isSkipped root)
        indexedFiles := report.indexedFiles + vs.countP (·.indexes root)
        failures := report.failures ++ vs.filterMap (·.failure? root) } := by
  induction vs generalizing report with
  | nil => simp
  | cons v rest ih =>
    rw [List.foldl_cons, ih, Report.after]
    congr 1
    · rw [List.map_cons, List.sum_cons, Nat.add_assoc]
    · rw [List.countP_cons]
      cases v.isSkipped root <;> simp [Nat.add_right_comm, ← Nat.add_assoc]
    · rw [List.countP_cons]
      cases v.indexes root <;> simp [Nat.add_right_comm, ← Nat.add_assoc]
    · rw [List.filterMap_cons]
      cases v.failure? root <;> simp

namespace Pass

/-- What a run reports. -/
theorem run_report (root : List Char) (config : ConversionConfig) (feeds : List Feed) :
    (({ root, config } : Pass).run feeds).1.report =
      { translated := ((visits feeds).map (·.rewritten root)).sum
        skipped := (visits feeds).countP (·.isSkipped root)
        indexedFiles := (visits feeds).countP (·.indexes root)
        failures := (visits feeds).filterMap (·.failure? root) } := by
  rw [run_pass, (steps_visits (recalls_of_fresh root config) _).1, ← visits, foldl_after]
  simp

/-- What a run does, from the first visit to the last. -/
theorem run_trace (root : List Char) (config : ConversionConfig) (feeds : List Feed) :
    (({ root, config } : Pass).run feeds).1.trace =
      (visits feeds).flatMap (·.acts root config.warnMissingFiles) := by
  rw [run_pass, (steps_visits (recalls_of_fresh root config) _).2, ← visits]
  rfl

end Pass
end SymbolAtlas
