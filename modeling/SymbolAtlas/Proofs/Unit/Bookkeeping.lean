import Mathlib.Data.List.Dedup
import SymbolAtlas.Proofs.Span.CanonicalOrder
import SymbolAtlas.Proofs.Span.Trace
import SymbolAtlas.Proofs.Text.ByteOrder
import SymbolAtlas.Proofs.Unit.Registrations

/-! The books of a registry. Each registered unit type stands in them once, whatever the
order and the number of its registrations; all that is looked up follows from the latest
of them, and the log tells which ones took the place of another. So registrations of
different types may change places without a difference to any answer. -/
namespace SymbolAtlas

/-- The unit type that an event reports a replacement for. -/
def Event.replaced? : Event → Option String
  | .grapherReplaced unitType => some unitType
  | _ => none

/-- What an answer adds to the log. -/
def Answer.events : Answer → List Event
  | .registered events | .graphed _ events => events
  | .found _ _ | .unitTypes _ => []

/-- The unit types that the log reports replacements for, in order. -/
def replacements (answers : List Answer) : List String :=
  (answers.flatMap Answer.events).filterMap Event.replaced?

/-- The unit types of registrations, each as often as it was registered. -/
def enrolledTypes (enrolled : List Enrollment) : List String := enrolled.map (·.unitType)

/-- The same registrations in an order that differs between types at most: those of one
type come as they did. -/
def SameWithinTypes (first second : List Enrollment) : Prop :=
  ∀ unitType, first.filter (·.unitType = unitType) = second.filter (·.unitType = unitType)

/-! ### Registrations in another order -/

namespace SameWithinTypes
variable {first second : List Enrollment}

theorem latest?_eq (same : SameWithinTypes first second) (unitType : String) :
    latest? first unitType = latest? second unitType := by
  have last : ∀ enrolled : List Enrollment, latest? enrolled unitType =
      (enrolled.filter (·.unitType = unitType)).reverse.head? := by
    intro enrolled
    rw [latest?, ← List.head?_filter, List.filter_reverse]
  rw [last, last, same unitType]

open Classical in
/-- Nothing is lost and nothing is added. -/
theorem perm (same : SameWithinTypes first second) : first.Perm second := by
  rw [List.perm_iff_count]
  intro c
  have own : ∀ enrolled : List Enrollment,
      (enrolled.filter (·.unitType = c.unitType)).count c = enrolled.count c :=
    fun enrolled => List.count_filter (decide_eq_true rfl)
  rw [← own first, same c.unitType, own second]

end SameWithinTypes

/-! ### The log of an analysis -/

/-- A pass has nothing to do with registrations. -/
theorem Visit.replaced_acts (root : List Char) (v : Visit) (warnMissing : Bool) :
    ∀ event, .logs event ∈ v.acts root warnMissing → event.replaced? = none := by
  intro event member
  have failed : event.replaced? = none ∨ ∃ act ∈ v.looks root warnMissing, act = .logs event := by
    rcases List.mem_append.mp member with looked | complained
    · exact .inr ⟨_, looked, rfl⟩
    · obtain ⟨error, _, same⟩ := List.mem_map.mp complained
      cases same
      exact .inl rfl
  obtain done | ⟨_, looked, rfl⟩ := failed
  · exact done
  by_cases first : v.IsNamed ∧ v.IsFirst root
  · obtain ⟨seen, decided⟩ := exists_sight first.1
    rw [looks_of_first decided first.2, List.mem_append] at looked
    obtain ⟨_, said, same⟩ := List.mem_map.mp
      (looked.resolve_left (FileSystem.logs_not_mem_accesses _ _ event))
    cases same
    cases seen <;> simp [Sight.event?] at said <;> rw [said] <;> rfl
  · rw [looks_of_not_first first] at looked
    cases looked

theorem replaced_convert (fs : FileSystem) (root : String) (config : ConversionConfig)
    (batch : Batch) : ((batch.convert fs root config).1.events).filterMap Event.replaced? = [] := by
  rw [List.filterMap_eq_nil_iff]
  intro event logged
  have trace : (batch.convert fs root config).1.trace =
      (visits [⟨fs, batch⟩]).flatMap (·.acts root.toList config.warnMissingFiles) :=
    Pass.run_trace root.toList config [⟨fs, batch⟩]
  rw [Pass.events, trace, List.mem_filterMap] at logged
  obtain ⟨act, done, same⟩ := logged
  obtain ⟨v, _, acted⟩ := List.mem_flatMap.mp done
  cases act with
  | logs said =>
    cases same
    exact v.replaced_acts root.toList config.warnMissingFiles event acted
  | asksStatus place => cases same
  | reads place => cases same

namespace Registry
variable {r s : Registry} {config : ConversionConfig} {history later : List Request}

theorem replaced_graph (r : Registry) (fs : FileSystem) (root : String) (unit : SourceUnit)
    (repo : RepoConfig) : (r.graph fs root unit repo).2.filterMap Event.replaced? = [] := by
  unfold graph
  cases r.find? unit.unitType with
  | none => rfl
  | some registration =>
    dsimp only
    cases registration.grapher fs root unit repo with
    | error reason => rfl
    | ok batch =>
      dsimp only
      cases registration.offsets with
      | bytes => rfl
      | codepoints =>
        dsimp only
        rw [List.filterMap_append, replaced_convert]
        rfl

/-! ### Serving in parts -/

theorem serve_append (r : Registry) (history later : List Request) :
    r.serve (history ++ later) = (((r.serve history).1.serve later).1,
      (r.serve history).2 ++ ((r.serve history).1.serve later).2) := by
  induction history generalizing r with
  | nil => rfl
  | cons request rest ih => simp only [List.cons_append, serve, ih]

theorem length_answers (r : Registry) (history : List Request) :
    (r.serve history).2.length = history.length := by
  induction history generalizing r with
  | nil => rfl
  | cons request rest ih => simp only [serve, List.length_cons, ih]

/-- The answer to a request is what the registry says that the requests before it
left. -/
theorem answer_at (r : Registry) (before after : List Request) (request : Request) :
    (r.serve (before ++ request :: after)).2[before.length]? =
      some ((r.serve before).1.answer request).2 := by
  rw [serve_append, List.getElem?_append_right (length_answers r before).le,
    length_answers, Nat.sub_self]
  rfl

/-! ### The registered types -/

/-- A registry without two entries for one type. -/
def EachOnce (r : Registry) : Prop := (r.registrations.map (·.1)).Nodup

theorem isRegistered_iff {unitType : String} :
    r.isRegistered unitType = true ↔ unitType ∈ r.registrations.map (·.1) := by
  rw [isRegistered, find?, Option.isSome_map, List.find?_isSome, List.mem_map]
  simp

theorem eachOnce_answer (once : r.EachOnce) (request : Request) :
    (r.answer request).1.EachOnce := by
  cases request with
  | register c =>
    have others : ((r.registrations.filter (·.1 ≠ c.unitType)).map (·.1)).Nodup :=
      once.sublist (List.filter_sublist.map _)
    refine List.nodup_cons.mpr ⟨?_, others⟩
    simp
  | lookup unitType => exact once
  | unitTypes => exact once
  | graph fs root unit repo => exact once

theorem eachOnce_serve (once : r.EachOnce) (history : List Request) :
    (r.serve history).1.EachOnce := by
  induction history generalizing r with
  | nil => exact once
  | cons request rest ih => exact ih (eachOnce_answer once request)

theorem mem_unitTypes_iff {unitType : String} :
    unitType ∈ r.unitTypes ↔ r.isRegistered unitType = true := by
  rw [unitTypes, (sortedBy_perm compare _).mem_iff, isRegistered_iff]

/-- No type is listed twice, and each comes before all whose bytes are greater. -/
theorem unitTypes_increasing (once : r.EachOnce) :
    r.unitTypes.Pairwise fun s t => Utf8.byteOrder s t = .lt := by
  have distinct : r.unitTypes.Nodup := (sortedBy_perm compare _).nodup_iff.mpr once
  have ordered : r.unitTypes.Pairwise fun s t => (compare s t).isLE := sortedBy_pairwise _
  refine (ordered.and distinct).imp fun {s t} ⟨smaller, different⟩ => ?_
  rw [Utf8.byteOrder_eq_codePointOrder, ← Utf8.compare_eq_codePointOrder]
  exact (Ordering.isLE_iff_eq_lt_or_eq_eq.mp smaller).resolve_right
    fun same => different (Std.LawfulEqOrd.eq_of_compare same)

/-! ### Registries that agree -/

/-- Two registries that know the same analyzers and convert alike. -/
structure Agrees (r s : Registry) : Prop where
  config : r.config = s.config
  find : ∀ unitType, r.find? unitType = s.find? unitType
  once : r.EachOnce
  onceToo : s.EachOnce

theorem Agrees.unitTypes_eq (agrees : r.Agrees s) : r.unitTypes = s.unitTypes := by
  refine sortedBy_eq_of_perm ?_ fun _ _ _ _ => Std.LawfulEqOrd.eq_of_compare
  refine (List.perm_ext_iff_of_nodup agrees.once agrees.onceToo).mpr fun unitType => ?_
  rw [← isRegistered_iff, ← isRegistered_iff, isRegistered, agrees.find, isRegistered]

theorem Agrees.graph_eq (agrees : r.Agrees s) : r.graph = s.graph := by
  funext fs root unit repo
  unfold graph
  rw [agrees.find, agrees.config]

/-- They answer a request alike, and agree afterwards. -/
theorem Agrees.answer (agrees : r.Agrees s) (request : Request) :
    (r.answer request).2 = (s.answer request).2 ∧
      (r.answer request).1.Agrees (s.answer request).1 := by
  have once := eachOnce_answer agrees.once request
  have onceToo := eachOnce_answer agrees.onceToo request
  cases request with
  | register c =>
    refine ⟨?_, agrees.config, fun unitType => ?_, once, onceToo⟩
    · simp only [Registry.answer, register, isRegistered, agrees.find]
      rfl
    · exact (find?_register r c unitType).trans
        ((agrees.find unitType ▸ rfl : _ = _).trans (find?_register s c unitType).symm)
  | lookup unitType =>
    refine ⟨?_, agrees⟩
    simp only [Registry.answer, isRegistered, offsetUnits?, agrees.find]
  | unitTypes => exact ⟨congrArg Answer.unitTypes agrees.unitTypes_eq, agrees⟩
  | graph fs root unit repo =>
    refine ⟨?_, agrees⟩
    simp only [Registry.answer, agrees.graph_eq]

theorem Agrees.serve (agrees : r.Agrees s) (requests : List Request) :
    (r.serve requests).2 = (s.serve requests).2 := by
  induction requests generalizing r s with
  | nil => rfl
  | cons request rest ih =>
    obtain ⟨same, further⟩ := agrees.answer request
    simp only [Registry.serve, same, ih further]

/-! ### Replacements -/

theorem isRegistered_register (r : Registry) (c : Enrollment) (unitType : String) :
    (r.register c.unitType c.offsets c.grapher).1.isRegistered unitType =
      (decide (c.unitType = unitType) || r.isRegistered unitType) := by
  rw [isRegistered, find?_register]
  by_cases same : c.unitType = unitType
  · simp [same]
  · simp [same, isRegistered]

/-- A replacement is logged where a known type is registered, and nowhere else. -/
theorem replacements_serve_cons (r : Registry) (request : Request) (later : List Request) :
    replacements (r.serve (request :: later)).2 =
      (match request with
        | .register c => if r.isRegistered c.unitType then [c.unitType] else []
        | _ => []) ++ replacements ((r.answer request).1.serve later).2 := by
  have parts : replacements (r.serve (request :: later)).2 =
      (r.answer request).2.events.filterMap Event.replaced? ++
        replacements ((r.answer request).1.serve later).2 := by
    simp only [serve, replacements, List.flatMap_cons, List.filterMap_append]
  rw [parts]
  congr 1
  cases request with
  | register c =>
    simp only [answer, register, Answer.events]
    split <;> rfl
  | lookup unitType => rfl
  | unitTypes => rfl
  | graph fs root unit repo => exact replaced_graph r fs root unit repo

/-- A type is reported to be replaced as often as it is registered, but for the first
time if it was not known. -/
theorem count_replacements (r : Registry) (history : List Request) (unitType : String) :
    (replacements (r.serve history).2).count unitType +
        (if r.isRegistered unitType = false ∧ unitType ∈ enrolledTypes (enrollments history)
          then 1 else 0) =
      (enrolledTypes (enrollments history)).count unitType := by
  induction history generalizing r with
  | nil => simp [replacements, serve, enrolledTypes, enrollments]
  | cons request rest ih =>
    rw [replacements_serve_cons]
    cases request with
    | register c =>
      have types : enrolledTypes (enrollments (.register c :: rest)) =
          c.unitType :: enrolledTypes (enrollments rest) := rfl
      have further := ih (r.register c.unitType c.offsets c.grapher).1
      rw [isRegistered_register] at further
      rw [types, List.count_append, List.count_cons, ← further]
      by_cases same : c.unitType = unitType
      · cases known : r.isRegistered unitType with
        | false => simp [same, known, answer]
        | true =>
          simp [same, known, answer]
          omega
      · have other : unitType ≠ c.unitType := Ne.symm same
        cases known : r.isRegistered c.unitType <;> simp [same, other, known, answer]
    | lookup other => exact ih r
    | unitTypes => exact ih r
    | graph fs root unit repo => exact ih r

/-- The replacements, and each type once, are all that was registered. -/
theorem replacements_perm (config : ConversionConfig) (history : List Request) :
    (replacements (({ config } : Registry).serve history).2 ++
      (enrolledTypes (enrollments history)).dedup).Perm (enrolledTypes (enrollments history)) := by
  rw [List.perm_iff_count]
  intro unitType
  rw [List.count_append, List.count_dedup, ← count_replacements { config } history unitType]
  simp [isRegistered, find?]

/-! ### The books -/

theorem eachOnce_empty (config : ConversionConfig) : ({ config } : Registry).EachOnce :=
  List.nodup_nil

/-- Looking a type up finds its latest registration. -/
theorem find?_history (config : ConversionConfig) (history : List Request) (unitType : String) :
    (({ config } : Registry).serve history).1.find? unitType =
      (latest? (enrollments history) unitType).map Enrollment.registration :=
  (find?_serve _ history unitType).trans Option.or_none

theorem isRegistered_history (config : ConversionConfig) (history : List Request)
    (unitType : String) : (({ config } : Registry).serve history).1.isRegistered unitType = true ↔
      unitType ∈ enrolledTypes (enrollments history) := by
  rw [isRegistered, find?_history, Option.isSome_map, ← Option.ne_none_iff_isSome, ne_eq,
    latest?_eq_none_iff, enrolledTypes, List.mem_map]
  push Not
  rfl

theorem agrees_of_sameWithinTypes {other : List Request}
    (same : SameWithinTypes (enrollments history) (enrollments other)) :
    (({ config } : Registry).serve other).1.Agrees (({ config } : Registry).serve history).1 where
  config := (config_serve _ other).trans (config_serve _ history).symm
  find := fun unitType => by rw [find?_history, find?_history, same.latest?_eq]
  once := eachOnce_serve (eachOnce_empty config) other
  onceToo := eachOnce_serve (eachOnce_empty config) history

/-- The positions of a type are known to be counted in what its latest registration says. -/
theorem offsetUnits?_history (config : ConversionConfig) (history : List Request)
    (unitType : String) (offsets : OffsetUnits) :
    (({ config } : Registry).serve history).1.offsetUnits? unitType = some offsets ↔
      ∃ c, IsLatest (enrollments history) unitType c ∧ c.offsets = offsets := by
  rw [offsetUnits?, find?_history, Option.map_map, Option.map_eq_some_iff]
  simp only [latest?_eq_some_iff]
  rfl

/-- Alike within types, two histories replace the same registrations: what both replace is
what both enroll, apart from the first enrollment of each type. -/
theorem replacements_perm_of_sameWithinTypes {other : List Request}
    (same : SameWithinTypes (enrollments history) (enrollments other)) :
    (replacements (({ config } : Registry).serve other).2).Perm
      (replacements (({ config } : Registry).serve history).2) := by
  have types : (enrolledTypes (enrollments other)).Perm (enrolledTypes (enrollments history)) :=
    (same.perm.map _).symm
  have whole := ((replacements_perm config other).trans types).trans
    (replacements_perm config history).symm
  exact (List.perm_append_right_iff _).mp ((types.dedup.append_left _).symm.trans whole)

/-- Whatever has been asked of a registry, its unit types are listed once each and by
their bytes; a type is listed exactly if it was registered, exactly if it is found, and
exactly if its positions are known to be counted in something, which is what its latest
registration says. A registration logs that it replaces another exactly if its type was
registered before, and nothing else logs that, so that there are as many of these lines
as registrations that are not the first of their type. Registrations of different types
may be made in any other order: all answers to come stay the same, and the same
replacements are logged. -/
theorem books_follow_history (config : ConversionConfig) (history : List Request) :
    let enrolled := enrollments history
    let r := (({ config } : Registry).serve history).1
    let answers := (({ config } : Registry).serve history).2
    (r.unitTypes.Pairwise fun s t => Utf8.byteOrder s t = .lt) ∧
    (∀ unitType, unitType ∈ r.unitTypes ↔ unitType ∈ enrolledTypes enrolled) ∧
    (∀ unitType, (r.isRegistered unitType = true ↔ unitType ∈ r.unitTypes) ∧
      ((r.offsetUnits? unitType).isSome = true ↔ unitType ∈ r.unitTypes) ∧
      ∀ offsets, r.offsetUnits? unitType = some offsets ↔
        ∃ c, IsLatest enrolled unitType c ∧ c.offsets = offsets) ∧
    (∀ before c after, history = before ++ .register c :: after →
      answers[before.length]? = some (.registered
        (if c.unitType ∈ enrolledTypes (enrollments before) then [.grapherReplaced c.unitType]
          else []))) ∧
    (replacements answers).length + (enrolledTypes enrolled).dedup.length = enrolled.length ∧
    ∀ other later, SameWithinTypes enrolled (enrollments other) →
      ((({ config } : Registry).serve other).1.serve later).2 = (r.serve later).2 ∧
      (replacements (({ config } : Registry).serve other).2).Perm (replacements answers) := by
  intro enrolled r answers
  have listed : ∀ unitType, unitType ∈ r.unitTypes ↔ r.isRegistered unitType = true :=
    fun _ => mem_unitTypes_iff
  refine ⟨unitTypes_increasing (eachOnce_serve (eachOnce_empty config) history), fun unitType => ?_,
    fun unitType => ⟨(listed unitType).symm, ?_, offsetUnits?_history config history unitType⟩,
    ?_, ?_, fun other later same => ⟨(agrees_of_sameWithinTypes same).serve later,
      replacements_perm_of_sameWithinTypes same⟩⟩
  · rw [listed]
    exact isRegistered_history config history unitType
  · rw [listed, offsetUnits?, Option.isSome_map, isRegistered]
  · rintro before c after rfl
    refine (answer_at _ before after _).trans ?_
    simp only [answer, register, isRegistered_history]
  · have counted := (replacements_perm config history).length_eq
    rw [List.length_append] at counted
    exact counted.trans (List.length_map _)

/-- Three registrations of two types, and the same in another order: `é` is listed after
`z`, and one replacement is logged in both. -/
theorem books_in_another_order :
    let grapher : Grapher := fun _ _ _ _ => .ok {}
    let history : List Request := [.register ⟨"z", .bytes, grapher⟩, .lookup "z",
      .register ⟨"é", .bytes, grapher⟩, .register ⟨"z", .codepoints, grapher⟩]
    let other : List Request := [.register ⟨"é", .bytes, grapher⟩,
      .register ⟨"z", .bytes, grapher⟩, .unitTypes, .register ⟨"z", .codepoints, grapher⟩]
    let later : List Request := [.unitTypes, .lookup "z"]
    SameWithinTypes (enrollments history) (enrollments other) ∧
      ((({} : Registry).serve other).1.serve later).2 =
        ((({} : Registry).serve history).1.serve later).2 ∧
      (({} : Registry).serve history).1.unitTypes = ["z", "é"] ∧
      (replacements (({} : Registry).serve other).2).Perm ["z"] := by
  intro grapher history other later
  have same : SameWithinTypes (enrollments history) (enrollments other) := by
    intro unitType
    simp only [history, other, enrollments, List.filterMap_cons, List.filterMap_nil,
      List.filter_cons, List.filter_nil]
    by_cases first : "z" = unitType
    · subst first
      simp
    · simp [first]
  obtain ⟨-, -, -, -, -, reordered⟩ := books_follow_history {} history
  obtain ⟨alike, replaced⟩ := reordered other later same
  have listed : sortedBy compare ["z", "é"] = ["z", "é"] := List.mergeSort_of_pairwise (by decide)
  exact ⟨same, alike, listed, replaced⟩

end Registry
end SymbolAtlas
