import SymbolAtlas.Proofs.Span.Outcome
import SymbolAtlas.Proofs.Span.StableArrangement
import SymbolAtlas.Unit.Registry

/-! A registry over all that is ever asked of it. Only registrations change it, and of
the registrations of one unit type only the latest counts, whole: the analyzer that is
run for a unit and the units that its positions are taken to be in come from the same
one. What an analysis answers is therefore told by the registrations so far, and it
leaves the registry to answer everything after it as it would have anyway. -/
namespace SymbolAtlas

/-- A registration as it is asked for. -/
structure Enrollment where
  unitType : String
  offsets : OffsetUnits
  grapher : Grapher

def Enrollment.registration (c : Enrollment) : Registration := ⟨c.grapher, c.offsets⟩

/-- The latest registration of a unit type: none of the same type comes after it. -/
def IsLatest (enrolled : List Enrollment) (unitType : String) (c : Enrollment) : Prop :=
  c.unitType = unitType ∧ ∃ before after, enrolled = before ++ c :: after ∧
    ∀ later ∈ after, later.unitType ≠ unitType

/-- The latest registration of a unit type, if there is one. -/
def latest? (enrolled : List Enrollment) (unitType : String) : Option Enrollment :=
  enrolled.reverse.find? (·.unitType = unitType)

/-- What may be asked of a registry. -/
inductive Request where
  | register (c : Enrollment)
  | lookup (unitType : String)
  | unitTypes
  | graph (fs : FileSystem) (root : String) (unit : SourceUnit) (repo : RepoConfig)

/-- What a registry answers, with what it logs. -/
inductive Answer where
  | registered (events : List Event)
  | found (isRegistered : Bool) (offsets : Option OffsetUnits)
  | unitTypes (unitTypes : List String)
  | graphed (result : Except GraphError Batch) (events : List Event)

/-- The registrations among all that is asked, in order. -/
def enrollments (requests : List Request) : List Enrollment :=
  requests.filterMap fun
    | .register c => some c
    | _ => none

/-- How an analysis ends, by the registrations so far: nothing is registered for the
unit, or the latest analyzer fails, or it reports a batch, which is put in order, and
converted before that in one pass of its own where code points are counted. -/
inductive GraphEndsAs (config : ConversionConfig) (enrolled : List Enrollment) (fs : FileSystem)
    (root : String) (unit : SourceUnit) (repo : RepoConfig) :
    Except GraphError Batch → List Event → Prop where
  | unregistered (none : ∀ c ∈ enrolled, c.unitType ≠ unit.unitType) :
      GraphEndsAs config enrolled fs root unit repo (.error (.noGrapher unit.unitType)) []
  | failed {c : Enrollment} {reason : String} (latest : IsLatest enrolled unit.unitType c)
      (failed : c.grapher fs root unit repo = .error reason) :
      GraphEndsAs config enrolled fs root unit repo (.error (.grapherFailed unit.id reason)) []
  | bytes {c : Enrollment} {raw : Batch} (latest : IsLatest enrolled unit.unitType c)
      (reported : c.grapher fs root unit repo = .ok raw) (counted : c.offsets = .bytes) :
      GraphEndsAs config enrolled fs root unit repo (.ok raw.sorted) []
  | codepoints {c : Enrollment} {raw converted : Batch} {pass : Pass}
      (latest : IsLatest enrolled unit.unitType c)
      (reported : c.grapher fs root unit repo = .ok raw) (counted : c.offsets = .codepoints)
      (conversion : raw.convert fs root config = (pass, converted)) :
      GraphEndsAs config enrolled fs root unit repo (.ok converted.sorted)
        (pass.events ++ [.offsetsConverted unit.id pass.report.translated pass.report.skipped
          pass.report.failures.length])

/-! ### The latest registration -/

section
variable {enrolled : List Enrollment} {unitType : String} {c : Enrollment}

theorem latest?_eq_some_iff :
    latest? enrolled unitType = some c ↔ IsLatest enrolled unitType c := by
  rw [latest?, List.find?_eq_some_iff_append, decide_eq_true_eq, IsLatest]
  refine and_congr_right fun _ => ⟨?_, ?_⟩
  · rintro ⟨after, before, split, none⟩
    refine ⟨before.reverse, after.reverse, ?_, fun later member => ?_⟩
    · rw [← List.reverse_reverse enrolled, split]
      simp
    · simpa using none later (List.mem_reverse.mp member)
  · rintro ⟨before, after, rfl, none⟩
    refine ⟨after.reverse, before.reverse, by simp, fun later member => ?_⟩
    simpa using none later (List.mem_reverse.mp member)

theorem latest?_eq_none_iff :
    latest? enrolled unitType = none ↔ ∀ c ∈ enrolled, c.unitType ≠ unitType := by
  simp [latest?]

theorem latest?_cons (first : Enrollment) (rest : List Enrollment) (unitType : String) :
    latest? (first :: rest) unitType =
      (latest? rest unitType).or (if first.unitType = unitType then some first else none) := by
  rw [latest?, List.reverse_cons, List.find?_append, List.find?_singleton, latest?]
  simp only [decide_eq_true_eq]

end

/-! ### Endings -/

namespace GraphEndsAs
variable {config : ConversionConfig} {enrolled : List Enrollment} {fs : FileSystem}
  {root : String} {unit : SourceUnit} {repo : RepoConfig} {events : List Event}

-- An ending carries its own error, so each error names the one way that it comes from.

theorem none_registered
    (ends : GraphEndsAs config enrolled fs root unit repo (.error (.noGrapher unit.unitType))
      events) : ∀ c ∈ enrolled, c.unitType ≠ unit.unitType := by
  cases ends with
  | unregistered none => exact none

theorem latest_failed {reason : String}
    (ends : GraphEndsAs config enrolled fs root unit repo
      (.error (.grapherFailed unit.id reason)) events) :
    ∃ c, IsLatest enrolled unit.unitType c ∧ c.grapher fs root unit repo = .error reason := by
  cases ends with
  | failed latest failed => exact ⟨_, latest, failed⟩

theorem in_order {batch : Batch}
    (ends : GraphEndsAs config enrolled fs root unit repo (.ok batch) events) :
    batch.isSorted = true := by
  cases ends with
  | bytes => exact Batch.isSorted_sorted _
  | codepoints => exact Batch.isSorted_sorted _

end GraphEndsAs

namespace Registry

/-- Answers one request. -/
def answer (r : Registry) : Request → Registry × Answer
  | .register c =>
    let (r, events) := r.register c.unitType c.offsets c.grapher
    (r, .registered events)
  | .lookup unitType => (r, .found (r.isRegistered unitType) (r.offsetUnits? unitType))
  | .unitTypes => (r, .unitTypes r.unitTypes)
  | .graph fs root unit repo =>
    let (result, events) := r.graph fs root unit repo
    (r, .graphed result events)

/-- Answers one request after another. -/
def serve (r : Registry) : List Request → Registry × List Answer
  | [] => (r, [])
  | request :: later =>
    let (r, first) := r.answer request
    let (r, answers) := r.serve later
    (r, first :: answers)

variable {r : Registry} {config : ConversionConfig} {history : List Request}

/-- A registration is found under its type, and nothing else changes. -/
theorem find?_register (r : Registry) (c : Enrollment) (unitType : String) :
    (r.register c.unitType c.offsets c.grapher).1.find? unitType =
      if c.unitType = unitType then some c.registration else r.find? unitType := by
  unfold register find?
  dsimp only
  rw [List.find?_cons]
  by_cases same : c.unitType = unitType
  · simp [same, Enrollment.registration]
  · rw [if_neg same]
    simp only [same, decide_false, List.find?_filter]
    congr 2
    funext entry
    by_cases here : entry.1 = unitType
    · simp [here, Ne.symm same]
    · simp [here]

/-- What is found after any requests is the latest registration among them, or what was
found before. -/
theorem find?_serve (r : Registry) (requests : List Request) (unitType : String) :
    (r.serve requests).1.find? unitType =
      ((latest? (enrollments requests) unitType).map Enrollment.registration).or
        (r.find? unitType) := by
  induction requests generalizing r with
  | nil => rfl
  | cons request later ih =>
    cases request with
    | register c =>
      have enrolled : enrollments (.register c :: later) = c :: enrollments later := rfl
      rw [enrolled, latest?_cons]
      refine (ih (r.register c.unitType c.offsets c.grapher).1).trans ?_
      rw [find?_register]
      by_cases same : c.unitType = unitType
      · cases latest? (enrollments later) unitType <;> simp [same]
      · cases latest? (enrollments later) unitType <;> simp [same]
    | lookup other => exact ih r
    | unitTypes => exact ih r
    | graph fs root unit repo => exact ih r

theorem config_serve (r : Registry) (requests : List Request) :
    (r.serve requests).1.config = r.config := by
  induction requests generalizing r with
  | nil => rfl
  | cons request later ih => cases request <;> exact ih _

section
variable {enrolled : List Enrollment} {fs : FileSystem} {root : String} {unit : SourceUnit}
  {repo : RepoConfig} {result : Except GraphError Batch} {events : List Event}

/-- Every analysis ends in one of the four ways. -/
theorem graph_ends (found : r.find? unit.unitType =
      (latest? enrolled unit.unitType).map Enrollment.registration) :
    GraphEndsAs r.config enrolled fs root unit repo (r.graph fs root unit repo).1
      (r.graph fs root unit repo).2 := by
  unfold graph
  rw [found]
  cases selected : latest? enrolled unit.unitType with
  | none => exact .unregistered (latest?_eq_none_iff.mp selected)
  | some c =>
    have latest := latest?_eq_some_iff.mp selected
    dsimp only [Option.map_some, Enrollment.registration]
    cases answered : c.grapher fs root unit repo with
    | error reason => exact .failed latest answered
    | ok raw =>
      cases counted : c.offsets with
      | bytes => exact .bytes latest answered counted
      | codepoints => exact .codepoints latest answered counted rfl

/-- It ends in no other way than the registrations decide. -/
theorem graph_of_ends (found : r.find? unit.unitType =
      (latest? enrolled unit.unitType).map Enrollment.registration)
    (ends : GraphEndsAs r.config enrolled fs root unit repo result events) :
    r.graph fs root unit repo = (result, events) := by
  unfold graph
  rw [found]
  cases ends with
  | unregistered none => rw [latest?_eq_none_iff.mpr none, Option.map_none]
  | failed latest failed =>
    rw [latest?_eq_some_iff.mpr latest]
    dsimp only [Option.map_some, Enrollment.registration]
    rw [failed]
  | bytes latest reported counted =>
    rw [latest?_eq_some_iff.mpr latest]
    dsimp only [Option.map_some, Enrollment.registration]
    rw [reported, counted]
  | codepoints latest reported counted conversion =>
    rw [latest?_eq_some_iff.mpr latest]
    dsimp only [Option.map_some, Enrollment.registration]
    rw [reported, counted]
    dsimp only
    rw [conversion]

/-- The registrations decide how an analysis ends, and nothing else does. -/
theorem graph_eq_iff (found : r.find? unit.unitType =
      (latest? enrolled unit.unitType).map Enrollment.registration) :
    r.graph fs root unit repo = (result, events) ↔
      GraphEndsAs r.config enrolled fs root unit repo result events := by
  refine ⟨fun answered => ?_, graph_of_ends found⟩
  have ends : GraphEndsAs r.config enrolled fs root unit repo (r.graph fs root unit repo).1
      (r.graph fs root unit repo).2 := graph_ends found
  rw [answered] at ends
  exact ends

end

/-- Whatever has been asked of a registry before, an analysis ends as the registrations
among it decide. It refuses a unit exactly where none of them is for the unit's type,
and fails exactly where the latest of these fails; every batch that it gives is in
order. Everything that is asked later is answered as if it had not been run. -/
theorem graph_by_latest_registration (config : ConversionConfig) (history later : List Request)
    (fs : FileSystem) (root : String) (unit : SourceUnit) (repo : RepoConfig) :
    let r := (({ config } : Registry).serve history).1
    (∀ result events, r.graph fs root unit repo = (result, events) ↔
      GraphEndsAs config (enrollments history) fs root unit repo result events) ∧
    ((r.graph fs root unit repo).1 = .error (.noGrapher unit.unitType) ↔
      ∀ c ∈ enrollments history, c.unitType ≠ unit.unitType) ∧
    (∀ reason, (r.graph fs root unit repo).1 = .error (.grapherFailed unit.id reason) ↔
      ∃ c, IsLatest (enrollments history) unit.unitType c ∧
        c.grapher fs root unit repo = .error reason) ∧
    (∀ batch, (r.graph fs root unit repo).1 = .ok batch → batch.isSorted = true) ∧
    r.serve (.graph fs root unit repo :: later) =
      ((r.serve later).1, .graphed (r.graph fs root unit repo).1 (r.graph fs root unit repo).2 ::
        (r.serve later).2) := by
  intro r
  have same : r.config = config := config_serve _ history
  have found : r.find? unit.unitType =
      (latest? (enrollments history) unit.unitType).map Enrollment.registration := by
    refine (find?_serve _ history unit.unitType).trans ?_
    exact Option.or_none
  have decided : ∀ result events, r.graph fs root unit repo = (result, events) ↔
      GraphEndsAs config (enrollments history) fs root unit repo result events := by
    intro result events
    exact same ▸ graph_eq_iff found
  have ends : GraphEndsAs config (enrollments history) fs root unit repo
      (r.graph fs root unit repo).1 (r.graph fs root unit repo).2 := (decided _ _).mp rfl
  refine ⟨decided, ⟨?_, ?_⟩, fun reason => ⟨?_, ?_⟩, ?_, rfl⟩
  · intro refused
    rw [refused] at ends
    exact ends.none_registered
  · intro none
    rw [(decided _ _).mpr (.unregistered none)]
  · intro refused
    rw [refused] at ends
    exact ends.latest_failed
  · rintro ⟨c, latest, failed⟩
    rw [(decided _ _).mpr (.failed latest failed)]
  · intro batch answered
    rw [answered] at ends
    exact ends.in_order

/-- An analyzer that counts bytes is replaced by one that counts code points after it
has failed once. -/
theorem graph_after_replacement :
    let fs : FileSystem :=
      { status := fun place => if place = [.name ['m']] then .regular else .missing
        read := fun _ => .ok (Utf8.encode ['é', 'b', 'c']) }
    let mention (file : String) (start stop : UInt32) : Reference :=
      { extent := { file, start, stop } }
    let raw : Batch := { references := [mention "m" 2 3, mention "m" 1 2] }
    let failing : Grapher := fun _ _ _ _ => .error "cannot parse"
    let reporting : Grapher := fun _ _ _ _ => .ok raw
    let unit : SourceUnit := { name := "u", unitType := "T" }
    let history : List Request :=
      [.register ⟨"T", .bytes, failing⟩, .graph fs "" unit {}, .lookup "U",
        .register ⟨"T", .codepoints, reporting⟩, .register ⟨"U", .bytes, failing⟩]
    let r := (({} : Registry).serve history).1
    IsLatest (enrollments history) "T" ⟨"T", .codepoints, reporting⟩ ∧
      (r.graph fs "" unit {}).1 =
        .ok { references := [mention "m" 2 3, mention "m" 3 4] } ∧
      (r.graph fs "" { unitType := "V" } {}).1 = .error (.noGrapher "V") := by
  intro fs mention raw failing reporting unit history r
  have latest : IsLatest (enrollments history) "T" ⟨"T", .codepoints, reporting⟩ := by
    refine ⟨rfl, [⟨"T", .bytes, failing⟩], [⟨"U", .bytes, failing⟩], rfl, ?_⟩
    simp
  have conversion : raw.convert fs "" {} = ((raw.convert fs "" {}).1, raw.inBytes fs []) :=
    Prod.ext rfl (convert_batch fs "" {} raw)
  have graphed := (graph_by_latest_registration {} history [] fs "" unit {}).1 _ _ |>.mpr
    (.codepoints latest rfl rfl conversion)
  have refused := (graph_by_latest_registration {} history [] fs "" { unitType := "V" } {}).2.1
  refine ⟨latest, ?_, refused.mpr ?_⟩
  · have moved : (raw.inBytes fs []).references = [mention "m" 3 4, mention "m" 2 3] := by
      decide +kernel
    have arranged : sortedBy Reference.order [mention "m" 3 4, mention "m" 2 3] =
        [mention "m" 2 3, mention "m" 3 4] :=
      sortedBy_concat_of_lt (List.pairwise_singleton _ (mention "m" 3 4)) (by decide)
    rw [graphed, Batch.sorted, moved, arranged]
    simp [raw, Batch.inBytes, sortedBy]
  · simp [history, enrollments]

end Registry
end SymbolAtlas
