import Mathlib.Data.List.Infix
import SymbolAtlas.Proofs.Repo.Cleaning

/-! Every canonical address has one form: a host, then segments, each after a
slash. The host is what is left of the address between a user name and a host
number, so it holds neither a slash nor an at sign; the segments are what is left
of the path once it is clean. -/
namespace SymbolAtlas.Repo

/-- The part of an address that becomes the host. -/
def namedHost (address : List Char) : List Char :=
  dropHostNumber (dropUser (splitAuthority address).1)

/-- The part of an address that becomes the path. -/
def namedPath (address : List Char) : List Char := (splitAuthority address).2

/-- A character that an address may hold. -/
def Visible (c : Char) : Prop := Text.isBlank c = false ∧ Text.isControl c = false

/-- An address has a canonical form when it is visible throughout, names a host,
and has a path that can be cleaned. -/
theorem canonicalChars_eq_ok_iff {text uri : List Char} :
    canonicalChars text = .ok uri ↔
      (∀ c ∈ text, Visible c) ∧ namedHost text ≠ [] ∧
        ∃ path, cleanSegments (namedPath text) = .ok path ∧
          uri = assemble (namedHost text) path := by
  unfold canonicalChars
  by_cases empty : text = []
  · subst empty
    have hostless : namedHost [] = [] := rfl
    simp [hostless]
  · rw [if_neg empty]
    cases found : text.find? fun c => Text.isBlank c || Text.isControl c with
    | some c =>
      have member := List.mem_of_find?_eq_some found
      have hidden := List.find?_some found
      constructor
      · intro run
        cases run
      · rintro ⟨visible, _⟩
        obtain ⟨noBlank, noControl⟩ := visible c member
        simp [noBlank, noControl] at hidden
    | none =>
      have visible : ∀ c ∈ text, Visible c := by
        intro c member
        simpa [Visible] using List.find?_eq_none.mp found c member
      change (if namedHost text = [] then _ else
        (cleanSegments (namedPath text)).map (assemble (namedHost text))) = _ ↔ _
      by_cases hostless : namedHost text = []
      · simp [hostless]
      · rw [if_neg hostless]
        cases cleanSegments (namedPath text) with
        | error cause =>
          constructor
          · intro run
            cases run
          · rintro ⟨_, _, cleaned, same, _⟩
            cases same
        | ok path =>
          constructor
          · intro run
            cases run
            exact ⟨visible, hostless, path, rfl, rfl⟩
          · rintro ⟨_, _, cleaned, same, rfl⟩
            cases same
            rfl

theorem afterScheme_subset {text rest : List Char} (found : afterScheme text = some rest) :
    rest ⊆ text := by
  fun_induction afterScheme text with
  | case1 => cases found
  | case2 tail =>
    cases found
    intro c member
    simp [member]
  | case3 c tail _ ih => exact List.subset_cons_of_subset c (ih found)

/-- Splitting gives a part without slashes and a path, both taken from the address. -/
theorem splitAuthority_parts (address : List Char) :
    '/' ∉ (splitAuthority address).1 ∧ (splitAuthority address).1 ⊆ address ∧
      (splitAuthority address).2 ⊆ address := by
  unfold splitAuthority
  cases scheme : afterScheme address with
  | some rest =>
    have inside := afterScheme_subset scheme
    dsimp only
    cases cut : Text.cutFirst '/' rest with
    | none => exact ⟨Text.cutFirst_eq_none_iff.mp cut, inside, List.nil_subset address⟩
    | some parts =>
      obtain ⟨before, after⟩ := parts
      obtain ⟨beforeInside, afterInside⟩ := Text.cutFirst_subset cut
      exact ⟨Text.not_mem_before_cutFirst cut, List.Subset.trans beforeInside inside,
        List.Subset.trans afterInside inside⟩
  | none =>
    have undivided : '/' ∉ address.takeWhile (· != '/') := by
      intro slash
      simpa using List.all_eq_true.mp List.all_takeWhile _ slash
    have headInside : address.takeWhile (· != '/') ⊆ address :=
      (List.takeWhile_sublist _).subset
    have tailInside : address.dropWhile (· != '/') ⊆ address :=
      (List.dropWhile_sublist _).subset
    dsimp only
    cases cut : Text.cutLast ':' (address.takeWhile (· != '/')) with
    | none => exact ⟨undivided, headInside, tailInside⟩
    | some parts =>
      obtain ⟨host, after⟩ := parts
      obtain ⟨hostInside, afterInside⟩ := Text.cutLast_subset cut
      dsimp only
      by_cases number : isHostNumber after = true
      · rw [if_pos number]
        exact ⟨undivided, headInside, tailInside⟩
      · rw [if_neg number]
        exact ⟨fun slash => undivided (hostInside slash), List.Subset.trans hostInside headInside,
          List.append_subset.mpr ⟨List.Subset.trans afterInside headInside, tailInside⟩⟩

/-- No user name is left. -/
theorem dropUser_parts (authority : List Char) :
    '@' ∉ dropUser authority ∧ dropUser authority ⊆ authority := by
  unfold dropUser
  cases cut : Text.cutLast '@' authority with
  | none => exact ⟨Text.cutLast_eq_none_iff.mp cut, List.Subset.refl authority⟩
  | some parts => exact ⟨Text.not_mem_after_cutLast cut, (Text.cutLast_subset cut).2⟩

theorem dropUser_of_not_mem {authority : List Char} (nameless : '@' ∉ authority) :
    dropUser authority = authority := by
  rw [dropUser, Text.cutLast_eq_none_iff.mpr nameless]

theorem dropHostNumber_keeps_start (authority : List Char) :
    dropHostNumber authority <+: authority := by
  unfold dropHostNumber
  cases cut : Text.cutLast ':' authority with
  | none => exact List.prefix_refl authority
  | some parts =>
    obtain ⟨host, after⟩ := parts
    dsimp only
    by_cases number : (after.isEmpty || isHostNumber after) = true
    · rw [if_pos number, Text.eq_append_of_cutLast cut]
      exact List.prefix_append _ _
    · rw [if_neg number]

theorem namedHost_parts (address : List Char) :
    '/' ∉ namedHost address ∧ '@' ∉ namedHost address ∧ namedHost address ⊆ address := by
  obtain ⟨undivided, inside, _⟩ := splitAuthority_parts address
  obtain ⟨nameless, rest⟩ := dropUser_parts (splitAuthority address).1
  have left := (dropHostNumber_keeps_start (dropUser (splitAuthority address).1)).subset
  exact ⟨fun slash => undivided (rest (left slash)), fun sign => nameless (left sign),
    List.Subset.trans (List.Subset.trans left rest) inside⟩

/-- Lowering makes a small letter of a capital one and leaves every other character. -/
theorem toLower_cases (c : Char) : c.toLower.isUpper = false ∧
    (c.isUpper = true ∧ c.toLower.isLower = true ∨ c.toLower = c) := by
  delta Char.toLower Char.isUpper Char.isLower
  split
  · rename_i capital
    simp [UInt32.le_iff_toNat_le, UInt32.toNat_add] at capital ⊢
    omega
  · rename_i other
    exact ⟨decide_eq_false other, .inr rfl⟩

theorem visible_of_isLower {c : Char} (letter : c.isLower = true) : Visible c := by
  delta Char.isLower at letter
  simp [UInt32.le_iff_toNat_le] at letter
  simp [Visible, Text.isBlank, Text.isControl]
  omega

theorem visible_toLower {c : Char} (visible : Visible c) : Visible c.toLower := by
  rcases (toLower_cases c).2 with ⟨_, letter⟩ | same
  · exact visible_of_isLower letter
  · rw [same]
    exact visible

/-- Lowering a text brings in nothing but small letters. -/
theorem mem_of_mem_lowered {sign : Char} {text : List Char} (other : sign.isLower = false)
    (member : sign ∈ text.map Char.toLower) : sign ∈ text := by
  obtain ⟨c, inside, lowered⟩ := List.mem_map.mp member
  rcases (toLower_cases c).2 with ⟨_, letter⟩ | same
  · rw [lowered, other] at letter
    cases letter
  · rw [← lowered, same]
    exact inside

/-- How a canonical address is made up. -/
structure Form (uri host : List Char) (path : List (List Char)) : Prop where
  whole : uri = host ++ path.flatMap ('/' :: ·)
  hosted : host ≠ []
  hostPlain : ∀ c ∈ host, c ≠ '/' ∧ c ≠ '@' ∧ c.isUpper = false
  pathPlain : ∀ segment ∈ path, segment ≠ [] ∧ '/' ∉ segment
  earlierOrdinary : ∀ segment ∈ path.dropLast, Ordinary segment
  visible : ∀ c ∈ uri, Visible c

/-- Whatever an address is brought to has the form: the host of the address in small
letters, then its path cleaned. -/
theorem canonicalChars_form {text uri : List Char} (made : canonicalChars text = .ok uri) :
    ∃ path, cleanSegments (namedPath text) = .ok path ∧
      Form uri ((namedHost text).map Char.toLower) path := by
  obtain ⟨visible, hosted, path, clean, rfl⟩ := canonicalChars_eq_ok_iff.mp made
  obtain ⟨undivided, nameless, hostInside⟩ := namedHost_parts text
  obtain ⟨segments, earlier⟩ := cleanSegments_segments clean
  have pathInside : namedPath text ⊆ text := (splitAuthority_parts text).2.2
  refine ⟨path, clean, rfl, ?_, ?_, ?_, earlier, ?_⟩
  · rw [Ne, List.map_eq_nil_iff]
    exact hosted
  · intro c member
    refine ⟨?_, ?_, ?_⟩
    · rintro rfl
      exact undivided (mem_of_mem_lowered rfl member)
    · rintro rfl
      exact nameless (mem_of_mem_lowered rfl member)
    · obtain ⟨d, _, rfl⟩ := List.mem_map.mp member
      exact (toLower_cases d).1
  · intro segment member
    exact ⟨(segments segment member).1, (segments segment member).2.1⟩
  · intro c member
    rcases List.mem_append.mp member with inHost | inPath
    · obtain ⟨d, inside, rfl⟩ := List.mem_map.mp inHost
      exact visible_toLower (visible d (hostInside inside))
    · obtain ⟨segment, inSegments, inside⟩ := List.mem_flatMap.mp inPath
      rcases List.mem_cons.mp inside with rfl | inSegment
      · exact ⟨rfl, rfl⟩
      · exact visible c (pathInside ((segments segment inSegments).2.2 inSegment))

end SymbolAtlas.Repo
