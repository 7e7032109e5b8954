import SymbolAtlas.Proofs.Repo.Settling

/-! The canonical identifiers, told by their characters alone: a plain host, then
ordinary segments, of which the last has no suffix to lose. These are exactly the
texts that canonicalisation leaves as they are. Colons and at signs do no harm
within the segments, and nothing in such a text can look like a scheme, because no
segment is empty. -/
namespace SymbolAtlas.Repo

/-- The suffix that names the kind of a clone address. -/
def gitSuffix : List Char := ['.', 'g', 'i', 't']

/-- What a canonical identifier is made of. -/
structure Canonical (host : List Char) (path : List (List Char)) : Prop where
  hosted : host ≠ []
  hostPlain : ∀ c ∈ host, c ≠ '/' ∧ c ≠ ':' ∧ c ≠ '@' ∧ c.isUpper = false
  ordinary : ∀ segment ∈ path, '/' ∉ segment ∧ Ordinary segment
  unsuffixed : ∀ last ∈ path.getLast?, gitSuffix <:+ last → last = gitSuffix
  visible : ∀ c ∈ host ++ path.flatMap ('/' :: ·), Visible c

/-- A segment that consists of nothing but the suffix keeps it. -/
theorem not_endsInGit_iff {segment : List Char} :
    ¬ EndsInGit segment ↔ (gitSuffix <:+ segment → segment = gitSuffix) := by
  constructor
  · rintro plain ⟨stem, rfl⟩
    by_cases empty : stem = []
    · rw [empty, List.nil_append]
    · exact absurd ⟨stem, empty, rfl⟩ plain
  · rintro bare ⟨stem, some, rfl⟩
    have same := bare (List.suffix_append stem _)
    exact some (List.append_left_eq_self.mp same)

/-- A canonical identifier has the form of everything that canonicalisation gives. -/
theorem Canonical.form {host : List Char} {path : List (List Char)}
    (canonical : Canonical host path) : Form (host ++ path.flatMap ('/' :: ·)) host path where
  whole := rfl
  hosted := canonical.hosted
  hostPlain c member :=
    have plain := canonical.hostPlain c member
    ⟨plain.1, plain.2.2.1, plain.2.2.2⟩
  pathPlain segment member :=
    have ordinary := canonical.ordinary segment member
    ⟨ordinary.2.1, ordinary.1⟩
  earlierOrdinary segment member := (canonical.ordinary segment (List.mem_of_mem_dropLast member)).2
  visible := canonical.visible

/-- Of all texts of the form, the canonical ones are those that stay as they are. -/
theorem Form.canonical_iff {uri host : List Char} {path : List (List Char)}
    (form : Form uri host path) : canonicalChars uri = .ok uri ↔ Canonical host path := by
  have undivided : ∀ segment ∈ path, '/' ∉ segment := fun segment member =>
    (form.pathPlain segment member).2
  rw [form.fixed_iff, cleanSegments_fixed_iff undivided]
  constructor
  · rintro ⟨colonless, ordinary, plain⟩
    constructor
    · exact form.hosted
    · intro c member
      obtain ⟨slash, sign, small⟩ := form.hostPlain c member
      exact ⟨slash, ne_of_mem_of_not_mem member colonless, sign, small⟩
    · exact fun segment member => ⟨undivided segment member, ordinary segment member⟩
    · exact fun last member => not_endsInGit_iff.mp (plain last member)
    · exact form.whole ▸ form.visible
  · intro canonical
    refine ⟨fun colon => (canonical.hostPlain ':' colon).2.1 rfl, ?_, ?_⟩
    · exact fun segment member => (canonical.ordinary segment member).2
    · exact fun last member => not_endsInGit_iff.mpr (canonical.unsuffixed last member)

/-- A text is its own canonical form exactly when it is a canonical identifier. -/
theorem canonicalUri_eq_self_iff (uri : String) :
    canonicalUri uri = .ok uri ↔
      ∃ host path, uri.toList = host ++ path.flatMap ('/' :: ·) ∧ Canonical host path := by
  rw [canonicalUri_eq_ok_iff]
  constructor
  · intro fixed
    obtain ⟨path, _, form⟩ := canonicalChars_form fixed
    exact ⟨_, path, form.whole, form.canonical_iff.mp fixed⟩
  · rintro ⟨host, path, whole, canonical⟩
    rw [whole]
    exact canonical.form.canonical_iff.mpr canonical

/-- Colons and at signs belong to a path like other characters; in a host they do not. -/
example : canonicalUri "h/a:b@c/.git" = .ok "h/a:b@c/.git" ∧ canonicalUri "h:x" = .ok "h/x" :=
  ⟨rfl, rfl⟩

end SymbolAtlas.Repo
