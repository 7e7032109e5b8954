import SymbolAtlas.Proofs.Repo.Form

/-! A canonical address need not be its own canonical form. Its host may have kept a
colon, which is read as the start of a path or of a host number the next time; and
where a suffix was taken off the last segment, another suffix or a dot segment may
have come to light. Nothing else can happen: without these the address is settled
and stays as it is. -/
namespace SymbolAtlas.Repo

/-- Canonicalising again would change nothing: the host has no colon, and the last
segment, if there is one, is ordinary and has no suffix to lose. -/
def Settled (uri : List Char) : Prop :=
  ∃ host path, Text.segments '/' uri = host :: path ∧ ':' ∉ host ∧
    ∀ last ∈ path.getLast?, Final last

theorem afterScheme_of_single {text : List Char} (single : ¬ ['/', '/'] <:+: text) :
    afterScheme text = none := by
  fun_induction afterScheme text with
  | case1 => rfl
  | case2 rest => exact absurd ⟨[':'], rest, rfl⟩ single
  | case3 c rest _ ih =>
    apply ih
    intro doubled
    exact single (doubled.trans (List.suffix_cons c rest).isInfix)

namespace Form
variable {uri host : List Char} {path : List (List Char)}

theorem segments_eq (form : Form uri host path) : Text.segments '/' uri = host :: path := by
  rw [form.whole]
  refine Text.segments_flatMap ?_ fun segment member => (form.pathPlain segment member).2
  intro slash
  exact (form.hostPlain '/' slash).1 rfl

/-- An address has one host and one path. -/
theorem unique {otherHost : List Char} {otherPath : List (List Char)}
    (form : Form uri host path) (other : Form uri otherHost otherPath) :
    host = otherHost ∧ path = otherPath := by
  have same := form.segments_eq.symm.trans other.segments_eq
  cases same
  exact ⟨rfl, rfl⟩

/-- No segment is empty, so nothing in the address looks like the end of a scheme. -/
theorem schemeless (form : Form uri host path) : afterScheme uri = none := by
  apply afterScheme_of_single
  rintro ⟨before, after, doubled⟩
  have empty : [] ∈ Text.segments '/' uri := by
    have again : uri = before ++ '/' :: ([] ++ '/' :: after) := by
      rw [← doubled]
      simp
    rw [again, Text.segments_append_sep, Text.segments_append_sep]
    simp [Text.segments]
  rw [form.segments_eq] at empty
  rcases List.mem_cons.mp empty with hostless | inPath
  · exact form.hosted hostless.symm
  · exact (form.pathPlain [] inPath).1 rfl

theorem first_slash (form : Form uri host path) :
    uri.takeWhile (· != '/') = host ∧ uri.dropWhile (· != '/') = path.flatMap ('/' :: ·) := by
  have undivided : ∀ c ∈ host, (c != '/') = true := by
    intro c member
    simpa using (form.hostPlain c member).1
  rw [form.whole, List.takeWhile_append_of_pos undivided, List.dropWhile_append_of_pos undivided]
  cases path with
  | nil => simp
  | cons first rest => simp

theorem nameless (form : Form uri host path) : '@' ∉ host := by
  intro sign
  exact (form.hostPlain '@' sign).2.1 rfl

/-- Without a colon in the host the address is split where it was put together. -/
theorem named_of_colonless (form : Form uri host path) (colonless : ':' ∉ host) :
    namedHost uri = host ∧ namedPath uri = path.flatMap ('/' :: ·) := by
  obtain ⟨head, tail⟩ := form.first_slash
  have uncut := Text.cutLast_eq_none_iff.mpr colonless
  have split : splitAuthority uri = (host, path.flatMap ('/' :: ·)) := by
    simp only [splitAuthority, form.schemeless, head, tail, uncut]
  rw [namedHost, namedPath, split]
  refine ⟨?_, rfl⟩
  rw [dropUser_of_not_mem form.nameless, dropHostNumber, uncut]

/-- A colon in the host and what follows it are no longer part of the host. -/
theorem shorter_of_colon (form : Form uri host path) (colon : ':' ∈ host) :
    (namedHost uri).length < host.length := by
  obtain ⟨head, tail⟩ := form.first_slash
  cases cut : Text.cutLast ':' host with
  | none => exact absurd colon (Text.cutLast_eq_none_iff.mp cut)
  | some parts =>
    obtain ⟨before, after⟩ := parts
    have shorter : before.length < host.length := by
      rw [Text.eq_append_of_cutLast cut]
      simp
    by_cases number : isHostNumber after = true
    · have split : splitAuthority uri = (host, path.flatMap ('/' :: ·)) := by
        simp only [splitAuthority, form.schemeless, head, tail, cut, number, if_true]
      rw [namedHost, split, dropUser_of_not_mem form.nameless, dropHostNumber, cut]
      simpa [number] using shorter
    · have split : splitAuthority uri = (before, after ++ path.flatMap ('/' :: ·)) := by
        simp only [splitAuthority, form.schemeless, head, tail, cut, number, Bool.false_eq_true,
          if_false]
      have nameless : '@' ∉ before := fun sign => form.nameless ((Text.cutLast_subset cut).1 sign)
      rw [namedHost, split, dropUser_of_not_mem nameless]
      exact Nat.lt_of_le_of_lt (dropHostNumber_keeps_start before).length_le shorter

theorem lowered (form : Form uri host path) : host.map Char.toLower = host := by
  refine (List.map_congr_left ?_).trans (List.map_id host)
  intro c member
  have small := (form.hostPlain c member).2.2
  rcases (toLower_cases c).2 with ⟨capital, _⟩ | same
  · rw [small] at capital
    cases capital
  · exact same

/-- An address of the form is its own canonical form exactly when its host has no
colon and its path is clean. -/
theorem fixed_iff (form : Form uri host path) :
    canonicalChars uri = .ok uri ↔
      ':' ∉ host ∧ cleanSegments (path.flatMap ('/' :: ·)) = .ok path := by
  constructor
  · intro fixed
    obtain ⟨cleaned, clean, again⟩ := canonicalChars_form fixed
    obtain ⟨sameHost, rfl⟩ := form.unique again
    have colonless : ':' ∉ host := by
      intro colon
      have shorter := form.shorter_of_colon colon
      rw [sameHost, List.length_map] at shorter
      exact Nat.lt_irrefl _ shorter
    rw [(form.named_of_colonless colonless).2] at clean
    exact ⟨colonless, clean⟩
  · rintro ⟨colonless, clean⟩
    obtain ⟨sameHost, samePath⟩ := form.named_of_colonless colonless
    rw [canonicalChars_eq_ok_iff, sameHost, samePath]
    refine ⟨form.visible, form.hosted, path, clean, ?_⟩
    rw [assemble, form.lowered]
    exact form.whole

/-- Only the last segment of an address of the form can need cleaning. -/
theorem clean_iff (form : Form uri host path) :
    cleanSegments (path.flatMap ('/' :: ·)) = .ok path ↔ ∀ last ∈ path.getLast?, Final last := by
  rw [cleanSegments_fixed_iff fun segment member => (form.pathPlain segment member).2]
  rcases List.eq_nil_or_concat path with rfl | ⟨earlier, last, rfl⟩
  · simp
  · have earlierOrdinary : ∀ segment ∈ earlier, Ordinary segment := by
      simpa using form.earlierOrdinary
    simp only [List.concat_eq_append, List.forall_mem_append, List.forall_mem_singleton,
      List.getLast?_concat, Option.mem_some_iff, forall_eq']
    exact ⟨fun ⟨ordinary, plain⟩ => ⟨ordinary.2, plain⟩,
      fun final => ⟨⟨earlierOrdinary, final.1⟩, final.2⟩⟩

theorem settled_iff (form : Form uri host path) :
    Settled uri ↔ ':' ∉ host ∧ ∀ last ∈ path.getLast?, Final last := by
  rw [Settled, form.segments_eq]
  constructor
  · rintro ⟨_, _, same, colonless, final⟩
    cases same
    exact ⟨colonless, final⟩
  · rintro ⟨colonless, final⟩
    exact ⟨host, path, rfl, colonless, final⟩

end Form

theorem canonicalUri_eq_ok_iff {address uri : String} :
    canonicalUri address = .ok uri ↔ canonicalChars address.toList = .ok uri.toList := by
  rw [canonicalUri]
  cases canonicalChars address.toList with
  | error cause =>
    constructor
    · intro run
      cases run
    · intro run
      cases run
  | ok text =>
    constructor
    · intro run
      cases run
      rw [String.toList_ofList]
    · intro run
      cases run
      exact congrArg Except.ok String.ofList_toList

/-- A canonical address is its own canonical form exactly when it is settled. -/
theorem canonical_again_iff_settled {address uri : String} (made : canonicalUri address = .ok uri) :
    canonicalUri uri = .ok uri ↔ Settled uri.toList := by
  obtain ⟨path, _, form⟩ := canonicalChars_form (canonicalUri_eq_ok_iff.mp made)
  rw [canonicalUri_eq_ok_iff, form.fixed_iff, form.clean_iff, form.settled_iff]

/-- A clone address of the usual shape is settled in one pass. -/
theorem canonical_clone_address_settles :
    canonicalUri "https://GitHub.com/foo/bar.git" = .ok "github.com/foo/bar" ∧
      Settled "github.com/foo/bar".toList ∧
      canonicalUri "github.com/foo/bar" = .ok "github.com/foo/bar" := by
  have made : canonicalUri "https://GitHub.com/foo/bar.git" = .ok "github.com/foo/bar" := rfl
  have settled : Settled "github.com/foo/bar".toList := by
    refine ⟨"github.com".toList, ["foo".toList, "bar".toList], rfl, by decide, ?_⟩
    intro last member
    cases member
    decide
  exact ⟨made, settled, (canonical_again_iff_settled made).mpr settled⟩

/-- Of two suffixes the first pass takes one and the second pass the other. -/
theorem canonical_is_not_always_settled :
    ¬ ∀ address uri, canonicalUri address = .ok uri → canonicalUri uri = .ok uri := by
  intro idempotent
  have first : canonicalUri "h/a.git.git" = .ok "h/a.git" := rfl
  have second : canonicalUri "h/a.git" = .ok "h/a" := rfl
  have again := idempotent _ _ first
  rw [second] at again
  have same : "h/a" = "h/a.git" := Except.ok.inj again
  exact absurd same (by decide)

end SymbolAtlas.Repo
