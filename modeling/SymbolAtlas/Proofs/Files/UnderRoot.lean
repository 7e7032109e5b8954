import SymbolAtlas.Files.PathName
import SymbolAtlas.Proofs.Text.Splitting

/-! A file name is looked for under a root: the place that it leads to has the
components of the root, and behind them the steps of the name, one for each segment
that says something. Slashes in front, at the end and between segments leave no trace,
and no step is taken back: a parent step is appended like any other, so a name leads
out of the root as soon as it goes up more often than it has gone down. -/
namespace SymbolAtlas.PathName

/-- The steps that a file name makes from where it is looked for. -/
def steps (file : List Char) : List Component := (Text.segments '/' file).filterMap ofSegment?

/-- What follows the root on the way to a file. Where there is no root to follow, a
leading dot is kept. -/
def trail (root file : List Char) : List Component :=
  if root = [] then (components file).filter (· ≠ .root) else steps file

/-- A component that leads down, to a place of its own. -/
def Component.isName : Component → Bool
  | .name _ => true
  | _ => false

/-- Some first steps lead up more often than down. -/
def Escapes (path : List Component) : Prop :=
  ∃ first, first <+: path ∧ first.countP Component.isName < first.count .parent

/-! ### Segments and components -/

section
variable {segment : List Char} {c : Component}

theorem chars_of_ofSegment? (found : ofSegment? segment = some c) : c.chars = segment := by
  unfold ofSegment? at found
  split at found
  · cases found
  split at found
  · cases found
    exact Eq.symm ‹_›
  · cases found
    rfl

/-- A step is a parent or a name. -/
theorem step_of_ofSegment? (found : ofSegment? segment = some c) :
    c = .parent ∨ c.isName = true := by
  unfold ofSegment? at found
  split at found
  · cases found
  split at found
  · cases found
    exact .inl rfl
  · cases found
    exact .inr rfl

end

theorem step_of_mem_steps {file : List Char} {c : Component} (member : c ∈ steps file) :
    (c = .parent ∨ c.isName = true) ∧ ofSegment? c.chars = some c ∧ '/' ∉ c.chars := by
  obtain ⟨segment, inText, found⟩ := List.mem_filterMap.mp member
  have spelled := chars_of_ofSegment? found
  refine ⟨step_of_ofSegment? found, ?_, ?_⟩
  · rw [spelled]
    exact found
  · rw [spelled]
    exact (Text.segment_parts inText).1

/-- A name begins with a slash, or with a dot that is kept, or at once with its steps. -/
theorem components_cases (file : List Char) :
    components file = .root :: steps file ∨ components file = .here :: steps file ∨
      components file = steps file := by
  unfold components
  split
  · rename_i rest
    refine .inl ?_
    have empty : Text.segments '/' ('/' :: rest) = [] :: Text.segments '/' rest := by
      simp [Text.segments]
    rw [steps, empty]
    rfl
  · split
    · rename_i rest split
      refine .inr (.inl ?_)
      rw [steps, split]
      rfl
    · exact .inr (.inr rfl)

/-- Without the leading slash, only a leading dot stands before the steps. -/
theorem relative_cases (file : List Char) :
    (components file).filter (· ≠ .root) = steps file ∨
      (components file).filter (· ≠ .root) = .here :: steps file := by
  have kept : (steps file).filter (· ≠ .root) = steps file := by
    rw [List.filter_eq_self]
    intro c member
    rcases (step_of_mem_steps member).1 with rfl | name
    · rfl
    · cases c with
      | name => rfl
      | _ => cases name
  rcases components_cases file with begins | begins | begins
  · rw [begins, List.filter_cons_of_neg (by decide), kept]
    exact .inl rfl
  · rw [begins, List.filter_cons_of_pos (by decide), kept]
    exact .inr rfl
  · rw [begins, kept]
    exact .inl rfl

/-! ### Appending -/

theorem components_absolute (rest : List Char) :
    components ('/' :: rest) = .root :: steps rest := rfl

theorem components_relative {path : List Char} (relative : ∀ rest, path ≠ '/' :: rest) :
    components path = match Text.segments '/' path with
      | ['.'] :: rest => .here :: rest.filterMap ofSegment?
      | segments => segments.filterMap ofSegment? := by
  unfold components
  split
  · exact absurd rfl (relative _)
  · rfl

/-- A single segment makes one step at most. -/
theorem steps_of_segment {segment : List Char} (whole : '/' ∉ segment) :
    steps segment = (ofSegment? segment).toList := by
  rw [steps, Text.segments_of_not_mem whole]
  cases found : ofSegment? segment <;> simp [found]

theorem steps_append (before after : List Char) :
    steps (before ++ '/' :: after) = steps before ++ steps after := by
  rw [steps, Text.segments_append_sep, List.filterMap_append, ← steps, ← steps]

section
variable {path : List Char}

/-- What stands behind a slash adds its steps. -/
theorem components_append (started : path ≠ []) (after : List Char) :
    components (path ++ '/' :: after) = components path ++ steps after := by
  by_cases absolute : ∃ rest, path = '/' :: rest
  · obtain ⟨rest, rfl⟩ := absolute
    rw [List.cons_append, components_absolute, components_absolute, steps_append, List.cons_append]
  · have relative : ∀ rest, path ≠ '/' :: rest := fun rest same => absolute ⟨rest, same⟩
    have stillRelative : ∀ rest, path ++ '/' :: after ≠ '/' :: rest := by
      cases path with
      | nil => exact absurd rfl started
      | cons c others =>
        intro rest same
        exact relative others (by rw [(List.cons.inj same).1])
    rw [components_relative relative, components_relative stillRelative,
      Text.segments_append_sep]
    cases front : Text.segments '/' path with
    | nil => exact absurd front (Text.segments_ne_nil '/' path)
    | cons first others =>
      -- Only the first segment of a relative path may be a dot that is kept.
      by_cases dot : first = ['.']
      · subst dot
        exact congrArg (Component.here :: ·) List.filterMap_append
      · have plain (rest : List (List Char)) :
            (match first :: rest with
              | ['.'] :: rest => .here :: rest.filterMap ofSegment?
              | segments => segments.filterMap ofSegment?) =
              (first :: rest).filterMap ofSegment? := by
          split
          · exact absurd (List.cons.inj ‹_›).1 dot
          · rfl
        rw [List.cons_append, plain, plain, ← List.cons_append, List.filterMap_append, steps]

/-- A component that is pushed onto a path stands behind those of the path, unless it
is a dot, which is not kept there. -/
theorem components_push (started : path ≠ []) {c : Component} (whole : '/' ∉ c.chars) :
    components (push path c) = components path ++ (ofSegment? c.chars).toList := by
  rw [← steps_of_segment whole]
  unfold push
  split
  · exact absurd (List.getLast?_eq_none_iff.mp ‹_›) started
  · obtain ⟨before, rfl⟩ := List.getLast?_eq_some_iff.mp ‹path.getLast? = some '/'›
    rw [List.append_assoc, List.singleton_append]
    by_cases bare : before = []
    · subst bare
      exact components_absolute c.chars
    · rw [components_append bare, components_append bare, List.append_assoc]
      rfl
  · exact components_append started c.chars

theorem push_ne_nil (started : path ≠ []) (c : Component) : push path c ≠ [] := by
  unfold push
  split
  · exact absurd (List.getLast?_eq_none_iff.mp ‹_›) started
  · exact List.append_ne_nil_of_left_ne_nil started c.chars
  · exact List.append_ne_nil_of_left_ne_nil started _

/-- Steps that are pushed onto a path stand behind its components. -/
theorem components_foldl_push (started : path ≠ []) {added : List Component}
    (proper : ∀ c ∈ added, ofSegment? c.chars = some c ∧ '/' ∉ c.chars) :
    components (added.foldl push path) = components path ++ added := by
  induction added generalizing path with
  | nil => exact (List.append_nil _).symm
  | cons c added ih =>
    obtain ⟨⟨itself, whole⟩, later⟩ := List.forall_mem_cons.mp proper
    rw [List.foldl_cons, ih (push_ne_nil started c) later, components_push started whole, itself,
      List.append_assoc]
    rfl

end

theorem components_foldl_push_steps {path : List Char} (started : path ≠ []) (file : List Char) :
    components ((steps file).foldl push path) = components path ++ steps file :=
  components_foldl_push started fun _ member => (step_of_mem_steps member).2

/-- The text of a step is a path of that step alone. -/
theorem components_of_step {c : Component} (itself : ofSegment? c.chars = some c)
    (whole : '/' ∉ c.chars) : components c.chars = [c] := by
  have relative : ∀ rest, c.chars ≠ '/' :: rest := by
    intro rest same
    rw [same] at whole
    exact whole List.mem_cons_self
  rw [components_relative relative, Text.segments_of_not_mem whole]
  split
  · rename_i dot
    rw [(List.cons.inj dot).1] at itself
    cases itself
  · simp [itself]

/-- With no root, the way to a file is all that there is. -/
theorem components_resolve_rootless (file : List Char) :
    components (resolve [] file) = (components file).filter (· ≠ .root) := by
  have started {c : Component} (proper : ofSegment? c.chars = some c ∧ '/' ∉ c.chars) :
      c.chars ≠ [] := by
    intro empty
    rw [empty] at proper
    cases proper.1
  rw [resolve]
  rcases relative_cases file with same | same
  · rw [same]
    cases front : steps file with
    | nil => rfl
    | cons c more =>
      have proper : ∀ d ∈ c :: more, ofSegment? d.chars = some d ∧ '/' ∉ d.chars :=
        fun d member => (step_of_mem_steps (front ▸ member)).2
      obtain ⟨first, later⟩ := List.forall_mem_cons.mp proper
      have pushed : push [] c = c.chars := rfl
      rw [List.foldl_cons, pushed, components_foldl_push (started first) later,
        components_of_step first.1 first.2]
      rfl
  · have pushed : push [] .here = ['.'] := rfl
    rw [same, List.foldl_cons, pushed, components_foldl_push_steps (List.cons_ne_nil _ _)]
    rfl

/-- The place of a file is the root, followed by the way to the file. -/
theorem components_resolve (root file : List Char) :
    components (resolve root file) = components root ++ trail root file := by
  unfold trail
  by_cases rootless : root = []
  · subst rootless
    rw [if_pos rfl, components_resolve_rootless]
    rfl
  · rw [if_neg rootless, resolve]
    rcases relative_cases file with same | same
    · rw [same, components_foldl_push_steps rootless]
    · have dropped : ofSegment? Component.here.chars = none := rfl
      rw [same, List.foldl_cons, components_foldl_push_steps (push_ne_nil rootless .here),
        components_push rootless (by decide), dropped, Option.toList_none, List.append_nil]

/-- A dot in front leads nowhere. -/
theorem escapes_here_iff (path : List Component) : Escapes (.here :: path) ↔ Escapes path := by
  constructor
  · rintro ⟨first, begins, exceeds⟩
    rcases List.prefix_cons_iff.mp begins with rfl | ⟨run, rfl, inner⟩
    · cases exceeds
    · exact ⟨run, inner, by simpa [Component.isName] using exceeds⟩
  · rintro ⟨run, begins, exceeds⟩
    refine ⟨.here :: run, List.prefix_cons_iff.mpr (.inr ⟨run, rfl, begins⟩), ?_⟩
    simpa [Component.isName] using exceeds

/-- The way to a file leads out of the root exactly when the steps of its name do. -/
theorem escapes_trail_iff (root file : List Char) :
    Escapes (trail root file) ↔ Escapes (steps file) := by
  unfold trail
  split
  · rcases relative_cases file with same | same
    · rw [same]
    · rw [same, escapes_here_iff]
  · rfl

end SymbolAtlas.PathName
