import Mathlib.Data.List.Flatten
import Mathlib.Logic.Relation
import SymbolAtlas.Proofs.Repo.Resolution

/-! Canonicalising again and again comes to rest. No step makes an address longer, and
from the second step on, one that keeps its length takes a colon out of the host: so the
lengths of the address and of its host together go down with every step that changes
anything, and no address is met again once it has been left. -/
namespace SymbolAtlas.Repo

/-- The characters that segments take where each of them follows a slash. -/
def writtenLength (segments : List (List Char)) : Nat := (segments.flatMap ('/' :: ·)).length

theorem writtenLength_append (first second : List (List Char)) :
    writtenLength (first ++ second) = writtenLength first + writtenLength second := by
  rw [writtenLength, List.flatMap_append, List.length_append]
  rfl

theorem writtenLength_singleton (segment : List Char) :
    writtenLength [segment] = segment.length + 1 := by
  simp [writtenLength]

theorem writtenLength_segments (path : List Char) :
    writtenLength (Text.segments '/' path) = path.length + 1 := by
  rw [writtenLength, Text.flatMap_sep_eq_joinSegments '/' (Text.segments_ne_nil '/' path),
    Text.joinSegments_segments, List.length_cons]

/-- Segments of a path that were left out made it longer. -/
theorem eq_or_shorter {fewer segments : List (List Char)} (part : fewer.Sublist segments)
    (wholes : ∀ segment ∈ segments, '/' ∉ segment) :
    fewer = segments ∨ writtenLength fewer < writtenLength segments := by
  have shorter := part.flatMap ('/' :: ·)
  rcases Nat.lt_or_ge (writtenLength fewer) (writtenLength segments) with less | same
  · exact .inr less
  · left
    have texts := shorter.eq_of_length_le same
    have split := Text.segments_flatMap List.not_mem_nil wholes
    have splitFewer := Text.segments_flatMap List.not_mem_nil
      fun segment member => wholes segment (part.subset member)
    rw [texts, split] at splitFewer
    exact (List.cons.inj splitFewer).2.symm

theorem LosesSuffix.eq_or_shorter {segments cleaned : List (List Char)}
    (loses : LosesSuffix segments cleaned) :
    cleaned = segments ∨ writtenLength cleaned < writtenLength segments := by
  cases loses with
  | none => exact .inl rfl
  | plain => exact .inl rfl
  | suffixed =>
    right
    simp only [writtenLength_append, writtenLength_singleton, List.length_append]
    have long : 0 < gitSuffix.length := by decide
    omega

/-- Cleaning leaves a path as it is, or makes it shorter. -/
theorem cleanSegments_eq_or_shorter {path : List Char} {cleaned : List (List Char)}
    (clean : cleanSegments path = .ok cleaned) :
    cleaned = Text.segments '/' path ∨ writtenLength cleaned < path.length + 1 := by
  obtain ⟨_, loses⟩ := cleanSegments_eq_ok_iff_standing.mp clean
  have part := eq_or_shorter (standing_sublist (Text.segments '/' path))
    fun segment member => (Text.segment_parts member).1
  have less := loses.eq_or_shorter
  rw [← writtenLength_segments]
  rcases part with same | shorter
  · rwa [same] at less
  · rcases less with same | shorterAgain
    · exact .inr (same ▸ shorter)
    · exact .inr (Nat.lt_trans shorterAgain shorter)

theorem writtenLength_le {path : List Char} {cleaned : List (List Char)}
    (clean : cleanSegments path = .ok cleaned) : writtenLength cleaned ≤ path.length + 1 := by
  rcases cleanSegments_eq_or_shorter clean with same | less
  · rw [same, writtenLength_segments]
  · exact Nat.le_of_lt less

/-- A path that begins with a slash, or is empty, has no room for more than itself. -/
theorem writtenLength_le_of_slash {path : List Char} {cleaned : List (List Char)}
    (clean : cleanSegments path = .ok cleaned) (slash : ∀ c ∈ path.head?, c = '/') :
    writtenLength cleaned ≤ path.length := by
  rcases cleanSegments_eq_or_shorter clean with same | less
  · have empty : [] ∈ Text.segments '/' path := by
      cases path with
      | nil => exact List.mem_singleton_self []
      | cons c rest =>
        rw [slash c rfl, Text.segments, if_pos rfl]
        exact List.mem_cons_self
    rw [← same] at empty
    exact absurd rfl ((cleanSegments_segments clean).1 [] empty).1
  · exact Nat.le_of_lt_succ less

theorem afterScheme_length_lt {text rest : List Char} (found : afterScheme text = some rest) :
    rest.length < text.length := by
  fun_induction afterScheme text with
  | case1 => cases found
  | case2 tail =>
    cases found
    simp only [List.length_cons]
    omega
  | case3 c tail _ ih => exact Nat.lt_succ_of_lt (ih found)

/-- An address has room for its authority, a slash and its path, where the slash may be
the first character of the path. -/
theorem splitAuthority_room (address : List Char) :
    (splitAuthority address).1.length + (splitAuthority address).2.length + 1 ≤ address.length ∨
      (splitAuthority address).1.length + (splitAuthority address).2.length = address.length ∧
        ∀ c ∈ (splitAuthority address).2.head?, c = '/' := by
  unfold splitAuthority
  cases scheme : afterScheme address with
  | some rest =>
    left
    have shorter := afterScheme_length_lt scheme
    dsimp only
    cases cut : Text.cutFirst '/' rest with
    | none => exact shorter
    | some parts =>
      have whole := congrArg List.length (Text.eq_append_of_cutFirst cut)
      rw [List.length_append, List.length_cons] at whole
      dsimp only [Option.getD_some]
      omega
  | none =>
    have whole := congrArg List.length
      (List.takeWhile_append_dropWhile : address.takeWhile (· != '/') ++ _ = address)
    rw [List.length_append] at whole
    have slash : ∀ c ∈ (address.dropWhile (· != '/')).head?, c = '/' := by
      intro c first
      have refused := List.head?_dropWhile_not (· != '/') address
      rw [first] at refused
      simpa using refused
    dsimp only
    cases cut : Text.cutLast ':' (address.takeWhile (· != '/')) with
    | none => exact .inr ⟨whole, slash⟩
    | some parts =>
      have head := congrArg List.length (Text.eq_append_of_cutLast cut)
      rw [List.length_append, List.length_cons] at head
      dsimp only
      by_cases number : isHostNumber parts.2 = true
      · rw [if_pos number]
        exact .inr ⟨whole, slash⟩
      · rw [if_neg number]
        left
        dsimp only
        rw [List.length_append]
        omega

theorem namedHost_length_le (address : List Char) :
    (namedHost address).length ≤ (splitAuthority address).1.length := by
  have left := (dropHostNumber_keeps_start (dropUser (splitAuthority address).1)).length_le
  refine Nat.le_trans left ?_
  unfold dropUser
  cases cut : Text.cutLast '@' (splitAuthority address).1 with
  | none => exact Nat.le_refl _
  | some parts =>
    rw [Text.eq_append_of_cutLast cut, List.length_append, List.length_cons]
    dsimp only
    omega

/-- No step makes an address longer. -/
theorem canonicalChars_length_le {text uri : List Char} (made : canonicalChars text = .ok uri) :
    uri.length ≤ text.length := by
  obtain ⟨_, _, path, clean, rfl⟩ := canonicalChars_eq_ok_iff.mp made
  have host := namedHost_length_le text
  have whole : (assemble (namedHost text) path).length =
      (namedHost text).length + writtenLength path := by
    rw [assemble, List.length_append, List.length_map, writtenLength]
  rw [whole]
  rcases splitAuthority_room text with room | ⟨room, slash⟩
  · have size := writtenLength_le clean
    rw [namedPath] at size
    omega
  · have size := writtenLength_le_of_slash clean slash
    rw [namedPath] at size
    omega

/-- What every step that changes an address makes less: its length and that of its host. -/
def unrest (uri : List Char) : Nat := uri.length + (uri.takeWhile (· != '/')).length

theorem unrest_le (uri : List Char) : unrest uri ≤ 2 * uri.length := by
  have host := (List.takeWhile_prefix (· != '/') : uri.takeWhile _ <+: uri).length_le
  rw [unrest]
  omega

namespace Form
variable {uri host next : List Char} {path : List (List Char)}

theorem unrest_eq (form : Form uri host path) : unrest uri = uri.length + host.length := by
  rw [unrest, form.first_slash.1]

/-- Cleaning the path of an address of the form again leaves it or makes it shorter. -/
theorem clean_again {cleaned : List (List Char)} (form : Form uri host path)
    (clean : cleanSegments (path.flatMap ('/' :: ·)) = .ok cleaned) :
    cleaned = path ∨ writtenLength cleaned < writtenLength path := by
  by_cases pathless : path = []
  · subst pathless
    cases clean
    exact .inl rfl
  · have joined := Text.flatMap_sep_eq_joinSegments '/' pathless
    have again := Text.segments_joinSegments pathless
      fun segment member => (form.pathPlain segment member).2
    have size : writtenLength path = (Text.joinSegments '/' path).length + 1 := by
      rw [writtenLength, joined, List.length_cons]
    rw [joined, cleanSegments_slash] at clean
    rw [size]
    simpa only [again] using cleanSegments_eq_or_shorter clean

/-- A step from an address of the form leaves it, or takes some of its unrest. -/
theorem step (form : Form uri host path) (made : canonicalChars uri = .ok next) :
    next = uri ∨ unrest next < unrest uri := by
  obtain ⟨cleaned, clean, after⟩ := canonicalChars_form made
  rw [form.unrest_eq, after.unrest_eq, List.length_map]
  by_cases colon : ':' ∈ host
  · right
    exact Nat.add_lt_add_of_le_of_lt (canonicalChars_length_le made) (form.shorter_of_colon colon)
  · obtain ⟨sameHost, samePath⟩ := form.named_of_colonless colon
    rw [samePath] at clean
    rw [sameHost]
    have whole := after.whole
    rw [sameHost, form.lowered] at whole
    rcases form.clean_again clean with rfl | shorter
    · exact .inl (whole.trans form.whole.symm)
    · right
      rw [whole, form.whole, List.length_append, List.length_append]
      exact Nat.add_lt_add_right (Nat.add_lt_add_left shorter _) _

end Form

/-- One address is canonicalised to another. -/
def Becomes (address uri : String) : Prop := canonicalUri address = .ok uri

/-- An answer after which nothing new comes: a refusal, or an address that stays. -/
def AtRest : Except UriError String → Prop
  | .error _ => True
  | .ok uri => Becomes uri uri

section Repeated
variable {address uri : String}

theorem Becomes.formed (step : Becomes address uri) : ∃ host path, Form uri.toList host path :=
  have ⟨path, _, form⟩ := canonicalChars_form (canonicalUri_eq_ok_iff.mp step)
  ⟨_, path, form⟩

/-- An address that has been canonicalised before stays, or loses some of its unrest. -/
theorem Becomes.eq_or_unrest_lt (formed : ∃ host path, Form address.toList host path)
    (step : Becomes address uri) :
    uri = address ∨ unrest uri.toList < unrest address.toList := by
  obtain ⟨host, path, form⟩ := formed
  rcases form.step (canonicalUri_eq_ok_iff.mp step) with same | less
  · exact .inl (String.toList_injective same)
  · exact .inr less

/-- As many steps as an address has unrest bring it to rest. -/
theorem run_comes_to_rest {times : Nat} (formed : ∃ host path, Form address.toList host path)
    (enough : unrest address.toList ≤ times) :
    ∃ result ∈ canonicalRun times address, AtRest result := by
  induction times generalizing address with
  | zero =>
    obtain ⟨host, path, form⟩ := formed
    have hosted := List.length_pos_iff.mpr form.hosted
    rw [form.unrest_eq] at enough
    omega
  | succ times ih =>
    rw [canonicalRun]
    cases made : canonicalUri address with
    | error cause => exact ⟨_, List.mem_singleton_self _, trivial⟩
    | ok uri =>
      rcases Becomes.eq_or_unrest_lt formed made with rfl | less
      · exact ⟨_, List.mem_cons_self, made⟩
      · obtain ⟨result, member, rest⟩ := ih (Becomes.formed made) (by omega)
        exact ⟨result, List.mem_cons_of_mem _ member, rest⟩

theorem eq_or_unrest_lt_of_steps (formed : ∃ host path, Form address.toList host path)
    (steps : Relation.ReflTransGen Becomes address uri) :
    uri = address ∨ unrest uri.toList < unrest address.toList := by
  induction steps using Relation.ReflTransGen.head_induction_on with
  | refl => exact .inl rfl
  | head step later ih =>
    have further := ih step.formed
    rcases step.eq_or_unrest_lt formed with rfl | less
    · exact further
    · rcases further with rfl | lessAgain
      · exact .inr less
      · exact .inr (Nat.lt_trans lessAgain less)

/-- An address that is met again was never left. -/
theorem eq_of_steps_back (steps : Relation.ReflTransGen Becomes address uri)
    (back : Relation.ReflTransGen Becomes uri address) : uri = address := by
  rcases steps.cases_tail with same | ⟨_, _, lastStep⟩
  · exact same
  · rcases back.cases_tail with same | ⟨_, _, lastBack⟩
    · exact same.symm
    · rcases eq_or_unrest_lt_of_steps lastBack.formed steps with same | less
      · exact same
      · rcases eq_or_unrest_lt_of_steps lastStep.formed back with same | more
        · exact same.symm
        · exact absurd less (Nat.lt_asymm more)

end Repeated

/-- Canonicalising comes to rest: no address gets longer, so many steps are enough, and no
other address comes between two times that one is met. -/
theorem canonicalising_comes_to_rest (address : String) :
    (∀ uri, canonicalUri address = .ok uri → uri.length ≤ address.length) ∧
      (∃ result ∈ canonicalRun (2 * address.length + 1) address, AtRest result) ∧
      ∀ earlier later, Relation.ReflTransGen Becomes address earlier →
        Relation.ReflTransGen Becomes earlier later →
        Relation.ReflTransGen Becomes later earlier → later = earlier := by
  have lengths : ∀ uri, canonicalUri address = .ok uri → uri.length ≤ address.length := by
    intro uri made
    rw [← String.length_toList, ← String.length_toList]
    exact canonicalChars_length_le (canonicalUri_eq_ok_iff.mp made)
  refine ⟨lengths, ?_, fun earlier later _ steps back => eq_of_steps_back steps back⟩
  rw [canonicalRun]
  cases made : canonicalUri address with
  | error cause => exact ⟨_, List.mem_singleton_self _, trivial⟩
  | ok uri =>
    have bound := unrest_le uri.toList
    rw [String.length_toList] at bound
    have shorter := lengths uri made
    have enough : unrest uri.toList ≤ 2 * address.length := by omega
    obtain ⟨result, member, rest⟩ := run_comes_to_rest (Becomes.formed made) enough
    exact ⟨result, List.mem_cons_of_mem _ member, rest⟩

/-- A colon or a suffix goes with each step, until none is left. -/
example : canonicalRun 4 "a:b:c.git.git" =
    [.ok "a:b/c.git", .ok "a/b/c", .ok "a/b/c", .ok "a/b/c"] := rfl

end SymbolAtlas.Repo
