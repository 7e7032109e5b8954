import SymbolAtlas.Proofs.Span.FirstVisits

/-! What a run does to the outside, in order: it asks the file system, and it logs.
Everything that it does belongs to one of its visits. A first visit asks for the
place and says what is there, and no other visit does either; every entry of the
report is logged where it is made. Whether a missing file is worth a warning is the
only thing that the settings decide. -/
namespace SymbolAtlas
open PathName

namespace Act

/-- The place whose status is asked for. -/
def asked? : Act → Option (List Component)
  | .asksStatus place => some place
  | _ => none

/-- The place whose bytes are read. -/
def read? : Act → Option (List Component)
  | .reads place => some place
  | _ => none

/-- The entry of the report that is logged. -/
def failure? : Act → Option Failure
  | .logs (.spanFailed path error) => some ⟨path, error⟩
  | _ => none

/-- The same with missing files logged at the level that the settings ask for. -/
def withMissing (warnMissing : Bool) : Act → Act
  | .logs (.missingFile _ path) =>
    .logs (.missingFile (if warnMissing then .warn else .debug) path)
  | act => act

end Act

/-- What calls for a warning: a span that failed, and a missing file where that is
asked for. -/
def Event.CallsForWarning (warnMissing : Bool) : Event → Prop
  | .spanFailed _ _ => True
  | .missingFile _ _ => warnMissing = true
  | _ => False

/-- A trace of a run that made a report. -/
structure Report.Traces (report : Report) (root : List Char) (warnMissing : Bool)
    (feeds : List Feed) (trace : List Act) : Prop where
  /-- Visit by visit: what a first visit asks for and says, and what a visit complains
  of. -/
  visits : trace = (visits feeds).flatMap (·.acts root warnMissing)
  /-- The status of every place that the run comes to is asked for once. -/
  asksOnce : ∀ place, trace.count (.asksStatus place) =
    if ∃ m ∈ moments feeds, m.extent.LiesAt root place then 1 else 0
  /-- Its bytes are read once at most. -/
  readsOnce : ∀ place, trace.count (.reads place) ≤ 1
  /-- The entries of the report are logged in their order. -/
  failures : trace.filterMap Act.failure? = report.failures
  /-- Apart from them nothing is done but to look at places for the first time. -/
  others : trace.filter (·.failure?.isNone) =
    (SymbolAtlas.visits feeds).flatMap (·.looks root warnMissing)
  levels : ∀ event, .logs event ∈ trace →
    (event.level = .warn ↔ event.CallsForWarning warnMissing)

namespace FileSystem

theorem asked_accesses (fs : FileSystem) (place : List Component) :
    (fs.accesses place).filterMap Act.asked? = [place] := by
  unfold accesses
  split <;> rfl

theorem read_accesses (fs : FileSystem) (place : List Component) :
    ((fs.accesses place).filterMap Act.read?).Sublist [place] := by
  unfold accesses
  split
  · exact List.Sublist.refl _
  · exact List.nil_sublist _

theorem logs_not_mem_accesses (fs : FileSystem) (place : List Component) (event : Event) :
    .logs event ∉ fs.accesses place := by
  unfold accesses
  split <;> simp

theorem accesses_withMissing (fs : FileSystem) (place : List Component) (warnMissing : Bool) :
    (fs.accesses place).map (·.withMissing warnMissing) = fs.accesses place := by
  unfold accesses
  split <;> rfl

theorem failure_accesses (fs : FileSystem) (place : List Component) :
    ∀ act ∈ fs.accesses place, act.failure? = none := by
  unfold accesses
  split <;> simp [Act.failure?]

end FileSystem

namespace Visit
variable {root : List Char} {warnMissing : Bool} {v : Visit}

/-- What a visit does before it complains: what a first visit does, or nothing. -/
theorem looks_of_first {seen : Sight} (decided : v.sight? root = some seen)
    (first : v.IsFirst root) :
    v.looks root warnMissing = v.now.files.accesses (v.place root) ++
      (seen.event? warnMissing (v.path root)).toList.map .logs := by
  rw [looks, decided]
  exact if_pos first

theorem looks_of_not_first (rest : ¬ (v.IsNamed ∧ v.IsFirst root)) :
    v.looks root warnMissing = [] := by
  cases decided : v.sight? root with
  | none => rw [looks, decided]
  | some seen =>
    rw [looks, decided]
    exact if_neg fun first => rest ⟨named_of_sight decided, first⟩

variable (v root warnMissing)

/-- What a visit complains of. -/
def complaints : List Act :=
  (v.complaint? root).toList.map fun error => .logs (.spanFailed (v.path root) error)

theorem failure_looks : ∀ act ∈ v.looks root warnMissing, act.failure? = none := by
  by_cases first : v.IsNamed ∧ v.IsFirst root
  · obtain ⟨seen, decided⟩ := exists_sight first.1
    rw [looks_of_first decided first.2]
    intro act member
    rcases List.mem_append.mp member with member | member
    · exact FileSystem.failure_accesses _ _ act member
    · cases seen <;> simp [Sight.event?] at member <;> rw [member] <;> rfl
  · rw [looks_of_not_first first]
    simp

theorem asked_acts :
    (v.acts root warnMissing).filterMap Act.asked? =
      if v.IsNamed ∧ v.IsFirst root then [v.place root] else [] := by
  have silent : (v.complaints root).filterMap Act.asked? = [] := by
    unfold complaints
    cases v.complaint? root <;> rfl
  rw [acts, List.filterMap_append, ← complaints, silent, List.append_nil]
  by_cases first : v.IsNamed ∧ v.IsFirst root
  · obtain ⟨seen, decided⟩ := exists_sight first.1
    rw [if_pos first, looks_of_first decided first.2, List.filterMap_append,
      FileSystem.asked_accesses]
    cases seen <;> rfl
  · rw [if_neg first, looks_of_not_first first]
    rfl

theorem read_acts :
    ((v.acts root warnMissing).filterMap Act.read?).Sublist
      (if v.IsNamed ∧ v.IsFirst root then [v.place root] else []) := by
  have silent : (v.complaints root).filterMap Act.read? = [] := by
    unfold complaints
    cases v.complaint? root <;> rfl
  rw [acts, List.filterMap_append, ← complaints, silent, List.append_nil]
  by_cases first : v.IsNamed ∧ v.IsFirst root
  · obtain ⟨seen, decided⟩ := exists_sight first.1
    have unread : ((seen.event? warnMissing (v.path root)).toList.map Act.logs).filterMap
        Act.read? = [] := by cases seen <;> rfl
    rw [if_pos first, looks_of_first decided first.2, List.filterMap_append, unread,
      List.append_nil]
    exact FileSystem.read_accesses _ _
  · rw [if_neg first, looks_of_not_first first]
    exact List.nil_sublist _

theorem failure_acts :
    (v.acts root warnMissing).filterMap Act.failure? = (v.failure? root).toList := by
  have silent : (v.looks root warnMissing).filterMap Act.failure? = [] :=
    List.filterMap_eq_nil_iff.mpr (v.failure_looks root warnMissing)
  rw [acts, List.filterMap_append, silent, List.nil_append, failure?]
  cases v.complaint? root <;> rfl

theorem other_acts :
    (v.acts root warnMissing).filter (·.failure?.isNone) = v.looks root warnMissing := by
  have kept : (v.looks root warnMissing).filter (·.failure?.isNone) =
      v.looks root warnMissing := by
    rw [List.filter_eq_self]
    intro act member
    rw [v.failure_looks root warnMissing act member]
    rfl
  have dropped : (v.complaints root).filter (·.failure?.isNone) = [] := by
    unfold complaints
    cases v.complaint? root <;> rfl
  rw [acts, List.filter_append, kept, ← complaints, dropped, List.append_nil]

theorem levels_acts : ∀ event, .logs event ∈ v.acts root warnMissing →
    (event.level = .warn ↔ event.CallsForWarning warnMissing) := by
  intro event member
  rcases List.mem_append.mp member with member | member
  · by_cases first : v.IsNamed ∧ v.IsFirst root
    · obtain ⟨seen, decided⟩ := exists_sight first.1
      rw [looks_of_first decided first.2, List.mem_append] at member
      obtain ⟨_, said, same⟩ := List.mem_map.mp
        (member.resolve_left (FileSystem.logs_not_mem_accesses _ _ event))
      cases same
      cases seen with
      | missing =>
        obtain rfl := List.mem_singleton.mp said
        cases warnMissing <;> simp [Event.level, Event.CallsForWarning]
      | notRegular =>
        obtain rfl := List.mem_singleton.mp said
        simp [Event.level, Event.CallsForWarning]
      | unreadable error => cases said
      | indexed index =>
        obtain rfl := List.mem_singleton.mp said
        simp [Event.level, Event.CallsForWarning]
    · rw [looks_of_not_first first] at member
      cases member
  · obtain ⟨error, _, same⟩ := List.mem_map.mp member
    cases same
    exact iff_of_true rfl trivial

/-- The settings decide about the level of missing files and nothing else. -/
theorem acts_withMissing (other : Bool) :
    v.acts root other = (v.acts root warnMissing).map (·.withMissing other) := by
  have complaints : (v.complaints root).map (·.withMissing other) = v.complaints root := by
    unfold complaints
    cases v.complaint? root <;> rfl
  rw [acts, acts, List.map_append, ← Visit.complaints, complaints]
  congr 1
  by_cases first : v.IsNamed ∧ v.IsFirst root
  · obtain ⟨seen, decided⟩ := exists_sight first.1
    rw [looks_of_first decided first.2, looks_of_first decided first.2, List.map_append,
      FileSystem.accesses_withMissing]
    cases seen <;> rfl
  · rw [looks_of_not_first first, looks_of_not_first first]
    rfl

end Visit

theorem count_asksStatus (trace : List Act) (place : List Component) :
    trace.count (.asksStatus place) = (trace.filterMap Act.asked?).count place := by
  rw [List.count_filterMap, List.count]
  refine List.countP_congr fun act _ => ?_
  cases act <;> simp [Act.asked?]

theorem count_reads (trace : List Act) (place : List Component) :
    trace.count (.reads place) = (trace.filterMap Act.read?).count place := by
  rw [List.count_filterMap, List.count]
  refine List.countP_congr fun act _ => ?_
  cases act <;> simp [Act.read?]

theorem flatMap_sublist {α β : Type} {f g : α → List β} (each : ∀ a, (f a).Sublist (g a))
    (xs : List α) : (xs.flatMap f).Sublist (xs.flatMap g) := by
  induction xs with
  | nil => exact List.Sublist.refl _
  | cons a rest ih =>
    rw [List.flatMap_cons, List.flatMap_cons]
    exact (each a).append ih

theorem firstPlaces_eq_flatMap (root : List Char) (earlier later : List Moment) :
    firstPlaces root earlier later = (visitsAfter earlier later).flatMap fun v =>
      if v.IsNamed ∧ v.IsFirst root then [v.place root] else [] := by
  rw [firstPlaces]
  induction visitsAfter earlier later with
  | nil => rfl
  | cons v rest ih =>
    rw [List.flatMap_cons, ← ih, List.filter_cons]
    by_cases first : v.IsNamed ∧ v.IsFirst root <;> simp [first]

namespace Pass
variable (root : List Char) (config : ConversionConfig) (feeds : List Feed)

/-- The places whose status is asked for, in order, are those of the first visits. -/
theorem run_asked :
    (({ root, config } : Pass).run feeds).1.trace.filterMap Act.asked? =
      firstPlaces root [] (moments feeds) := by
  rw [run_trace, List.filterMap_flatMap, firstPlaces_eq_flatMap, visits]
  simp only [Visit.asked_acts]

/-- Nothing else is read, and nothing twice. -/
theorem run_read :
    ((({ root, config } : Pass).run feeds).1.trace.filterMap Act.read?).Sublist
      (firstPlaces root [] (moments feeds)) := by
  rw [run_trace, List.filterMap_flatMap, firstPlaces_eq_flatMap]
  exact flatMap_sublist (fun v => v.read_acts root config.warnMissingFiles) _

/-- However many batches a pass is fed, and however the files change meanwhile, it
does what its visits call for and nothing else. The settings change nothing but the
level at which missing files are logged. -/
theorem run_traces :
    (({ root, config } : Pass).run feeds).1.report.Traces root config.warnMissingFiles feeds
        (({ root, config } : Pass).run feeds).1.trace ∧
      ∀ other : ConversionConfig,
        (({ root, config := other } : Pass).run feeds).2 =
          (({ root, config } : Pass).run feeds).2 ∧
        (({ root, config := other } : Pass).run feeds).1.report =
          (({ root, config } : Pass).run feeds).1.report ∧
        (({ root, config := other } : Pass).run feeds).1.trace =
          (({ root, config } : Pass).run feeds).1.trace.map
            (·.withMissing other.warnMissingFiles) := by
  constructor
  · have asked := run_asked root config feeds
    have read := run_read root config feeds
    constructor
    · exact run_trace root config feeds
    · intro place
      rw [count_asksStatus, asked, (firstPlaces_nodup root [] (moments feeds)).count]
      simp only [mem_firstPlaces_iff]
    · intro place
      rw [count_reads]
      exact List.nodup_iff_count_le_one.mp
        ((firstPlaces_nodup root [] (moments feeds)).sublist read) place
    · rw [run_trace, run_report, List.filterMap_flatMap, List.filterMap_eq_flatMap_toList]
      simp only [Visit.failure_acts]
    · rw [run_trace, List.filter_flatMap]
      simp only [Visit.other_acts]
    · intro event logged
      rw [run_trace] at logged
      obtain ⟨v, _, member⟩ := List.mem_flatMap.mp logged
      exact v.levels_acts root config.warnMissingFiles event member
  · intro other
    refine ⟨?_, ?_, ?_⟩
    · rw [run_batches, run_batches]
      rfl
    · rw [run_report, run_report]
    · rw [run_trace, run_trace, List.map_flatMap]
      simp only [← Visit.acts_withMissing]

/-- Two names of one file, the second of them with a position beyond its end. -/
example :
    let fs : FileSystem :=
      { status := fun place => if place = [.name ['m']] then .regular else .missing
        read := fun _ => .ok (Utf8.encode ['é', 'b']) }
    let mention (file : String) (stop : UInt32) : Reference := { extent := { file, stop } }
    let batch : Batch := { references := [mention "m" 2, mention "/m" 3, mention "a" 1] }
    (({ root := [] } : Pass).run [⟨fs, batch⟩]).1.trace =
      [.asksStatus [.name ['m']], .reads [.name ['m']], .logs (.indexed "m" 2 3),
        .logs (.spanFailed "m" (.outOfRange 3 2)),
        .asksStatus [.name ['a']], .logs (.missingFile .warn "a")] := by
  cbv

end Pass
end SymbolAtlas
