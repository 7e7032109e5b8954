import SymbolAtlas.Proofs.Repo.Spelling

/-! The form of canonical addresses says all there is to say of them: every text of the
form is the canonical form of some address. Such an address is full, so that its host is
read to the first slash; the host ends in a colon without a number, which keeps the other
colons in it, and the last segment has a suffix to lose. -/
namespace SymbolAtlas.Repo

/-- Cleaning takes nothing but the suffix off a path of ordinary segments, whatever the
suffix was put on. -/
theorem cleanSegments_suffixed {earlier : List (List Char)} {last : List Char}
    (ordinary : ∀ segment ∈ earlier, Ordinary segment) (some : last ≠ [])
    (wholes : ∀ segment ∈ earlier ++ [last], '/' ∉ segment) :
    cleanSegments (Text.joinSegments '/' (earlier ++ [last ++ gitSuffix])) =
      .ok (earlier ++ [last]) := by
  rw [List.forall_mem_append, List.forall_mem_singleton] at wholes
  have split : Text.segments '/' (Text.joinSegments '/' (earlier ++ [last ++ gitSuffix])) =
      earlier ++ [last ++ gitSuffix] := by
    apply Text.segments_joinSegments
    · simp
    · rw [List.forall_mem_append, List.forall_mem_singleton, List.mem_append, not_or]
      exact ⟨wholes.1, wholes.2, by decide⟩
  have all : ∀ segment ∈ earlier ++ [last ++ gitSuffix], Ordinary segment := by
    rw [List.forall_mem_append, List.forall_mem_singleton]
    exact ⟨ordinary, ordinary_append_gitSuffix last⟩
  refine cleanSegments_eq_ok_iff.mpr ⟨(last ++ gitSuffix) :: earlier.reverse, ?_, .inr ?_⟩
  · rw [split, fold_of_ordinary all, List.append_nil, List.reverse_concat]
  · refine ⟨_, _, rfl, ?_⟩
    rw [List.reverse_reverse, gitSuffix, dropGitSuffix_of_endsInGit some]

/-- A colon at the end of a host goes without a number, and no other goes with it. -/
theorem host_of_last_colon {host : List Char} (nameless : '@' ∉ host) :
    dropHostNumber (dropUser (host ++ [':'])) = host := by
  have namelessWhole : '@' ∉ host ++ [':'] := by
    rw [List.mem_append, not_or]
    exact ⟨nameless, by decide⟩
  rw [dropUser_of_not_mem namelessWhole, dropHostNumber,
    Text.cutLast_append_sep host List.not_mem_nil]
  rfl

namespace Form
variable {uri host : List Char} {path : List (List Char)}

theorem visible_host (form : Form uri host path) : ∀ c ∈ host, Visible c := by
  intro c member
  exact form.visible c (form.whole ▸ List.mem_append_left _ member)

theorem visible_segment (form : Form uri host path) {segment : List Char}
    (inPath : segment ∈ path) : ∀ c ∈ segment, Visible c := by
  intro c member
  refine form.visible c (form.whole ▸ List.mem_append_right _ ?_)
  exact List.mem_flatMap.mpr ⟨segment, inPath, List.mem_cons_of_mem _ member⟩

/-- There is a text for the path of an address of the form, also where its last segment
is a dot segment or has a suffix. -/
theorem exists_path_text (form : Form uri host path) :
    ∃ text, cleanSegments text = .ok path ∧ ∀ c ∈ text, Visible c := by
  rcases List.eq_nil_or_concat path with rfl | ⟨earlier, last, rfl⟩
  · exact ⟨[], rfl, List.forall_mem_nil _⟩
  · rw [List.concat_eq_append] at form ⊢
    have ordinary : ∀ segment ∈ earlier, Ordinary segment := by
      simpa using form.earlierOrdinary
    have lastPlain := form.pathPlain last (by simp)
    refine ⟨_, cleanSegments_suffixed ordinary lastPlain.1 fun segment member =>
      (form.pathPlain segment member).2, ?_⟩
    have suffixVisible : ∀ c ∈ gitSuffix, Visible c := by
      simp [gitSuffix, Visible, Text.isBlank, Text.isControl]
    refine (writesPath_joinSegments (by simp)).all_chars ⟨rfl, rfl⟩ suffixVisible ?_
    rw [List.forall_mem_append, List.forall_mem_singleton, List.forall_mem_append]
    refine ⟨fun segment member => form.visible_segment ?_, form.visible_segment ?_, suffixVisible⟩
    · exact List.mem_append_left _ member
    · exact List.mem_append_right _ (List.mem_singleton_self last)

/-- An address of the form is the canonical form of a full address, with nothing before
the mark of the scheme. -/
theorem exists_address (form : Form uri host path) :
    ∃ text, canonicalChars text = .ok uri := by
  obtain ⟨pathText, clean, pathVisible⟩ := form.exists_path_text
  have undivided : '/' ∉ host ++ [':'] := by
    rw [List.mem_append, not_or]
    exact ⟨fun slash => (form.hostPlain '/' slash).1 rfl, by decide⟩
  have schemeless : ¬ [':', '/', '/'] <:+: [] := by decide
  let text := [] ++ ':' :: '/' :: '/' :: ((host ++ [':']) ++ '/' :: pathText)
  have split : splitAuthority text = _ := splitAuthority_full schemeless undivided pathText
  have hostFound : namedHost text = host := by
    rw [namedHost, split]
    exact host_of_last_colon form.nameless
  have pathFound : namedPath text = pathText := by
    rw [namedPath, split]
  have whole : uri = assemble host path := by
    rw [assemble, form.lowered]
    exact form.whole
  refine ⟨text, canonicalChars_eq_ok_iff.mpr ?_⟩
  rw [hostFound, pathFound]
  refine ⟨?_, form.hosted, path, clean, whole⟩
  have colon : Visible ':' := ⟨rfl, rfl⟩
  have slash : Visible '/' := ⟨rfl, rfl⟩
  simp only [text, List.nil_append, List.forall_mem_append, List.forall_mem_cons]
  exact ⟨colon, slash, slash, ⟨form.visible_host, colon, List.forall_mem_nil _⟩, slash, pathVisible⟩

end Form

/-- A text is the canonical form of some address exactly when it has the form. -/
theorem exists_address_iff_form (uri : String) :
    (∃ address, canonicalUri address = .ok uri) ↔ ∃ host path, Form uri.toList host path := by
  constructor
  · rintro ⟨address, made⟩
    obtain ⟨path, _, form⟩ := canonicalChars_form (canonicalUri_eq_ok_iff.mp made)
    exact ⟨_, path, form⟩
  · rintro ⟨host, path, form⟩
    obtain ⟨text, made⟩ := form.exists_address
    refine ⟨String.ofList text, canonicalUri_eq_ok_iff.mpr ?_⟩
    rwa [String.toList_ofList]

/-- A host with a number, a dot segment and a suffix are all left where more stood around
them. -/
example : canonicalUri "://h:22:/a/..git" = .ok "h:22/a/." ∧
    canonicalUri "://h::/a.git.git" = .ok "h:/a.git" := ⟨rfl, rfl⟩

end SymbolAtlas.Repo
