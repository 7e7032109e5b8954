import SymbolAtlas.Proofs.Repo.Spelling

/-! The short form of a clone address, `user@host:owner/name`, names the repository
that the full form names, unless the owner is a number. Digits alone after the colon
are taken for a port, as they are in `host:22/path`, and no identifier keeps a port;
so the repositories of all numbered owners with one name on one host are identified
with each other, and with none of their full addresses. -/
namespace SymbolAtlas.Repo

instance (text : List Char) : Decidable (IsNumber text) := inferInstanceAs (Decidable (_ ∧ _))

/-- A repository of an owner, and a user to whom its host is open. -/
structure OwnedRepository where
  user : List Char
  host : List Char
  owner : List Char
  name : List Char
  userNamed : user ≠ []
  userPlain : ∀ c ∈ user, c ≠ '/' ∧ c ≠ ':' ∧ c ≠ '@' ∧ Visible c
  hosted : host ≠ []
  hostPlain : ∀ c ∈ host, c ≠ '/' ∧ c ≠ ':' ∧ c ≠ '@' ∧ Visible c
  ordinary : ∀ segment ∈ [owner, name], Ordinary segment
  segmentPlain : ∀ segment ∈ [owner, name], ∀ c ∈ segment, c ≠ '/' ∧ c ≠ ':' ∧ Visible c
  unsuffixed : ¬ gitSuffix <:+ name

namespace OwnedRepository

/-- The short form, with a suffix or without. -/
def shortForm (r : OwnedRepository) (suffix : List Char) : String :=
  String.ofList (r.user ++ '@' :: (r.host ++ ':' :: (r.owner ++ '/' :: (r.name ++ suffix))))

/-- The full form, without a user. -/
def fullForm (r : OwnedRepository) : String :=
  String.ofList ("https://".toList ++ r.host ++ '/' :: (r.owner ++ '/' :: r.name))

/-- The identifier of a path on the host. -/
def identifier (r : OwnedRepository) (path : List Char) : String :=
  String.ofList (r.host.map Char.toLower ++ '/' :: path)

/-- The path that the owner and the name make. -/
def wholePath (r : OwnedRepository) : List Char := r.owner ++ '/' :: r.name

theorem spellable (r : OwnedRepository) : Spellable r.host [r.owner, r.name] where
  hosted := r.hosted
  hostPlain := r.hostPlain
  segmented := List.cons_ne_nil _ _
  ordinary := r.ordinary
  segmentPlain := r.segmentPlain
  unsuffixed last member suffixed := by
    cases member
    exact absurd suffixed r.unsuffixed

/-- A path of the name alone can be spelled in every way too. -/
theorem spellable_name (r : OwnedRepository) : Spellable r.host [r.name] where
  hosted := r.hosted
  hostPlain := r.hostPlain
  segmented := List.cons_ne_nil _ _
  ordinary := (List.forall_mem_cons.mp r.ordinary).2
  segmentPlain := (List.forall_mem_cons.mp r.segmentPlain).2
  unsuffixed last member suffixed := by
    cases member
    exact absurd suffixed r.unsuffixed

theorem user_proper (r : OwnedRepository) :
    ∀ user ∈ some r.user, ∀ c ∈ user, c ≠ '/' ∧ c ≠ ':' ∧ Visible c := by
  intro user same c member
  cases same
  have plain := r.userPlain c member
  exact ⟨plain.1, plain.2.1, plain.2.2.2⟩

/-- Any spelling of such a path on the host is read as the identifier of that path. -/
theorem identified (r : OwnedRepository) {segments : List (List Char)} {path : List Char}
    (spellable : Spellable r.host segments) {spelling : Spelling}
    (proper : spelling.Proper segments) (written : WritesPath segments path) :
    canonicalUri (String.ofList (spelling.write r.host path)) =
      .ok (r.identifier (Text.joinSegments '/' segments)) := by
  obtain ⟨hostFound, pathFound⟩ := Spelling.named spellable proper written
  have visible := Spelling.visible spellable proper written
  exact spellable.canonicalUri_of_named written visible hostFound pathFound

theorem writesPath_name (r : OwnedRepository) {suffix : List Char}
    (suffixed : suffix = [] ∨ suffix = gitSuffix) : WritesPath [r.name] (r.name ++ suffix) :=
  ⟨r.name, suffix, 0, .single r.name, suffixed, (List.append_nil _).symm⟩

theorem writesPath_whole (r : OwnedRepository) {suffix : List Char}
    (suffixed : suffix = [] ∨ suffix = gitSuffix) :
    WritesPath [r.owner, r.name] (r.owner ++ '/' :: (r.name ++ suffix)) := by
  have padded : Padded [r.owner, r.name] (r.owner ++ '/' :: r.name) :=
    .cons r.owner (List.forall_mem_nil _) (.single r.name)
  exact ⟨r.owner ++ '/' :: r.name, suffix, 0, padded, suffixed, by simp⟩

/-- After a colon, an owner that is no number begins the path. -/
theorem short_of_named_owner (r : OwnedRepository) (named : ¬ IsNumber r.owner)
    {suffix : List Char} (suffixed : suffix = [] ∨ suffix = gitSuffix) :
    canonicalUri (r.shortForm suffix) = .ok (r.identifier r.wholePath) := by
  have proper : (Spelling.short (some r.user)).Proper [r.owner, r.name] := by
    refine ⟨r.user_proper, fun first head => ?_⟩
    cases head
    exact named
  have read := r.identified r.spellable proper (r.writesPath_whole suffixed)
  rw [Spelling.write, userPart, List.append_assoc, List.append_assoc] at read
  exact read

/-- An owner that is a number is the port of a bare address, and is dropped. -/
theorem short_of_numbered_owner (r : OwnedRepository) (numbered : IsNumber r.owner)
    {suffix : List Char} (suffixed : suffix = [] ∨ suffix = gitSuffix) :
    canonicalUri (r.shortForm suffix) = .ok (r.identifier r.name) := by
  have proper : (Spelling.bare (some r.user) (some r.owner)).Proper [r.name] := by
    refine ⟨r.user_proper, fun digits same => ?_⟩
    cases same
    exact numbered
  have read := r.identified r.spellable_name proper (r.writesPath_name suffixed)
  rw [Spelling.write, userPart, numberPart, List.append_assoc, List.append_assoc,
    List.append_assoc] at read
  exact read

theorem full_identified (r : OwnedRepository) :
    canonicalUri r.fullForm = .ok (r.identifier r.wholePath) := by
  have proper : (Spelling.full "https".toList none none).Proper [r.owner, r.name] := by
    refine ⟨by decide, ?_, by simp, by simp⟩
    simp [Visible, Text.isBlank, Text.isControl]
  have written := r.writesPath_whole (.inl rfl)
  have read := r.identified r.spellable proper written
  rw [List.append_nil] at read
  rw [Spelling.write, userPart, numberPart, List.nil_append, List.append_nil] at read
  exact read

/-- Without its owner a path is another one. -/
theorem identifier_name_ne (r : OwnedRepository) :
    r.identifier r.name ≠ r.identifier r.wholePath := by
  intro same
  have same := congrArg (fun uri => uri.toList.length) same
  simp only [identifier, wholePath, String.toList_ofList, List.length_append, List.length_cons]
    at same
  omega

/-- With and without a suffix, the short form of a clone address gives the identifier
that the full form gives, whole path and all, unless the owner is a number; then the
owner is lost, and the identifier is another one. -/
theorem short_form_keeps_named_owner (r : OwnedRepository) :
    canonicalUri r.fullForm = .ok (r.identifier r.wholePath) ∧
    (∀ suffix, suffix = [] ∨ suffix = gitSuffix →
      canonicalUri (r.shortForm suffix) =
        .ok (r.identifier (if IsNumber r.owner then r.name else r.wholePath))) ∧
    (canonicalUri (r.shortForm []) = canonicalUri r.fullForm ↔ ¬ IsNumber r.owner) := by
  refine ⟨r.full_identified, fun suffix suffixed => ?_, ?_, fun named => ?_⟩
  · by_cases numbered : IsNumber r.owner
    · rw [if_pos numbered, r.short_of_numbered_owner numbered suffixed]
    · rw [if_neg numbered, r.short_of_named_owner numbered suffixed]
  · intro same numbered
    rw [r.full_identified, r.short_of_numbered_owner numbered (.inl rfl)] at same
    exact r.identifier_name_ne (Except.ok.inj same)
  · rw [r.full_identified, r.short_of_named_owner named (.inl rfl)]

/-- An owner that begins with a digit is no number, and stays. -/
theorem short_form_keeps_digits_in_name :
    canonicalUri "git@GitHub.com:7z/bar.git" = .ok "github.com/7z/bar" ∧
      canonicalUri "git@GitHub.com:7z/bar" = canonicalUri "https://GitHub.com/7z/bar" := by
  let r : OwnedRepository :=
    { user := "git".toList, host := "GitHub.com".toList, owner := "7z".toList,
      name := "bar".toList
      userNamed := by decide
      userPlain := by simp [Visible, Text.isBlank, Text.isControl]
      hosted := by decide
      hostPlain := by simp [Visible, Text.isBlank, Text.isControl]
      ordinary := by decide
      segmentPlain := by simp [Visible, Text.isBlank, Text.isControl]
      unsuffixed := by decide }
  have named : ¬ IsNumber r.owner := fun digits => absurd (digits.2 'z' (by decide)) (by decide)
  obtain ⟨_, short, same⟩ := short_form_keeps_named_owner r
  have suffixed := short gitSuffix (.inr rfl)
  rw [if_neg named] at suffixed
  have address : r.shortForm gitSuffix = "git@GitHub.com:7z/bar.git" := rfl
  have plain : r.shortForm [] = "git@GitHub.com:7z/bar" := rfl
  have full : r.fullForm = "https://GitHub.com/7z/bar" := rfl
  have uri : r.identifier r.wholePath = "github.com/7z/bar" := rfl
  rw [address, uri] at suffixed
  rw [plain, full] at same
  exact ⟨suffixed, same.mpr named⟩

/-- Two owners of a repository `bar` are one by their short addresses. -/
theorem short_form_loses_numbered_owner :
    canonicalUri "git@github.com:123/bar.git" = .ok "github.com/bar" ∧
      canonicalUri "git@github.com:45/bar.git" = .ok "github.com/bar" ∧
      canonicalUri "https://github.com/123/bar" = .ok "github.com/123/bar" ∧
      ¬ ∀ r : OwnedRepository,
        canonicalUri (r.shortForm gitSuffix) = .ok (r.identifier r.wholePath) := by
  refine ⟨rfl, rfl, rfl, fun keeps => ?_⟩
  have kept := keeps
    { user := "git".toList, host := "github.com".toList, owner := "123".toList,
      name := "bar".toList
      userNamed := by decide
      userPlain := by simp [Visible, Text.isBlank, Text.isControl]
      hosted := by decide
      hostPlain := by simp [Visible, Text.isBlank, Text.isControl]
      ordinary := by decide
      segmentPlain := by simp [Visible, Text.isBlank, Text.isControl]
      unsuffixed := by decide }
  have lost : canonicalUri "git@github.com:123/bar.git" = .ok "github.com/bar" := rfl
  have same : "github.com/bar" = "github.com/123/bar" := Except.ok.inj (lost.symm.trans kept)
  exact absurd same (by decide)

end OwnedRepository
end SymbolAtlas.Repo
