import SymbolAtlas.Proofs.Repo.PathText

/-! One repository has many addresses: with a scheme, with the host first, or short,
with a colon before the path; each with or without a user, and the longer ones with
or without a number after the host. All of them have the same canonical form. Each
separator is the first or the last of its kind, and it is looked for from the side
on which the address holds no other. -/
namespace SymbolAtlas.Repo

/-- One digit or more, and nothing else. -/
def IsNumber (text : List Char) : Prop := text ≠ [] ∧ ∀ c ∈ text, c.isDigit = true

/-- A host and the segments of a path that can be spelled in every way. -/
structure Spellable (host : List Char) (segments : List (List Char)) : Prop where
  hosted : host ≠ []
  hostPlain : ∀ c ∈ host, c ≠ '/' ∧ c ≠ ':' ∧ c ≠ '@' ∧ Visible c
  segmented : segments ≠ []
  ordinary : ∀ segment ∈ segments, Ordinary segment
  segmentPlain : ∀ segment ∈ segments, ∀ c ∈ segment, c ≠ '/' ∧ c ≠ ':' ∧ Visible c
  unsuffixed : ∀ last ∈ segments.getLast?, gitSuffix <:+ last → last = gitSuffix

/-- The shapes of an address, with all that stands in them besides host and path. -/
inductive Spelling where
  | full (scheme : List Char) (user number : Option (List Char))
  | bare (user number : Option (List Char))
  | short (user : Option (List Char))

def userPart : Option (List Char) → List Char
  | none => []
  | some user => user ++ ['@']

def numberPart : Option (List Char) → List Char
  | none => []
  | some number => ':' :: number

def Spelling.write (host path : List Char) : Spelling → List Char
  | .full scheme user number =>
    scheme ++ ':' :: '/' :: '/' :: (userPart user ++ host ++ numberPart number ++ '/' :: path)
  | .bare user number => userPart user ++ host ++ numberPart number ++ '/' :: path
  | .short user => userPart user ++ host ++ ':' :: path

/-- What may stand in an address of the shape. Only a scheme makes colons in the user
harmless, and a short address cannot begin its path with a number. -/
def Spelling.Proper (segments : List (List Char)) : Spelling → Prop
  | .full scheme user number =>
    ¬ [':', '/', '/'] <:+: scheme ∧ (∀ c ∈ scheme, Visible c) ∧
      (∀ name ∈ user, ∀ c ∈ name, c ≠ '/' ∧ Visible c) ∧ ∀ digits ∈ number, IsNumber digits
  | .bare user number =>
    (∀ name ∈ user, ∀ c ∈ name, c ≠ '/' ∧ c ≠ ':' ∧ Visible c) ∧
      ∀ digits ∈ number, IsNumber digits
  | .short user =>
    (∀ name ∈ user, ∀ c ∈ name, c ≠ '/' ∧ c ≠ ':' ∧ Visible c) ∧
      ∀ first ∈ segments.head?, ¬ IsNumber first

theorem isHostNumber_iff {text : List Char} : isHostNumber text = true ↔ IsNumber text := by
  simp [isHostNumber, IsNumber]

theorem afterScheme_cons {c : Char} {rest : List Char}
    (other : ∀ after, c :: rest ≠ ':' :: '/' :: '/' :: after) :
    afterScheme (c :: rest) = afterScheme rest := by
  rw [afterScheme]
  rintro after rfl rfl
  exact other after rfl

theorem afterScheme_append_of_not_mem {before : List Char} (plain : ':' ∉ before)
    (rest : List Char) : afterScheme (before ++ rest) = afterScheme rest := by
  induction before with
  | nil => rfl
  | cons c before ih =>
    rw [List.mem_cons, not_or] at plain
    rw [List.cons_append, afterScheme_cons, ih plain.2]
    intro after same
    exact plain.1 (List.cons.inj same).1.symm

/-- A scheme ends where its mark first stands, also when it ends in a part of one. -/
theorem afterScheme_append {scheme : List Char} (plain : ¬ [':', '/', '/'] <:+: scheme)
    (rest : List Char) : afterScheme (scheme ++ ':' :: '/' :: '/' :: rest) = some rest := by
  induction scheme with
  | nil => rfl
  | cons c scheme ih =>
    have plainRest : ¬ [':', '/', '/'] <:+: scheme := fun inside =>
      plain (inside.trans (List.suffix_cons c scheme).isInfix)
    rw [List.cons_append, afterScheme_cons, ih plainRest]
    -- A mark that begins here lies within the scheme: if it went on into the mark
    -- after the scheme, a colon would stand where it has a slash.
    intro after same
    match scheme, same with
    | [], same => simp at same
    | [_], same => simp at same
    | _ :: _ :: more, same =>
      simp only [List.cons_append, List.cons.injEq] at same
      obtain ⟨rfl, rfl, rfl, _⟩ := same
      exact plain ⟨[], more, rfl⟩

theorem afterScheme_of_not_mem {text : List Char} (plain : ':' ∉ text) :
    afterScheme text = none := by
  rw [← List.append_nil text, afterScheme_append_of_not_mem plain]
  rfl

/-- A text starts with no character that its beginning does not hold. -/
theorem head?_ne_of_not_mem {first : List Char} {sign : Char} (some : first ≠ [])
    (absent : sign ∉ first) (rest : List Char) : ∀ c ∈ (first ++ rest).head?, c ≠ sign := by
  intro c start
  cases first with
  | nil => exact absurd rfl some
  | cons d more =>
    cases start
    exact ne_of_mem_of_not_mem List.mem_cons_self absent

/-- One colon is no mark of a scheme when no slash follows it. -/
theorem afterScheme_single_colon {before after : List Char} (plain : ':' ∉ before)
    (plainAfter : ':' ∉ after) (begins : ∀ c ∈ after.head?, c ≠ '/') :
    afterScheme (before ++ ':' :: after) = none := by
  rw [afterScheme_append_of_not_mem plain, afterScheme_cons, afterScheme_of_not_mem plainAfter]
  intro rest same
  rw [(List.cons.inj same).2] at begins
  exact begins '/' rfl rfl

theorem dropUser_userPart (user : Option (List Char)) {host : List Char} (nameless : '@' ∉ host) :
    dropUser (userPart user ++ host) = host := by
  cases user with
  | none => exact dropUser_of_not_mem nameless
  | some name =>
    rw [userPart, List.append_assoc, List.singleton_append, dropUser,
      Text.cutLast_append_sep name nameless]

theorem IsNumber.not_mem {number : List Char} (digits : IsNumber number) {c : Char}
    (other : c.isDigit = false) : c ∉ number := by
  intro member
  rw [digits.2 c member] at other
  cases other

theorem not_mem_numberPart {number : Option (List Char)} (digits : ∀ text ∈ number, IsNumber text)
    {c : Char} (notColon : c ≠ ':') (other : c.isDigit = false) : c ∉ numberPart number := by
  cases number with
  | none => exact List.not_mem_nil
  | some text => exact List.not_mem_cons_of_ne_of_not_mem notColon ((digits text rfl).not_mem other)

theorem dropHostNumber_numberPart {host : List Char} {number : Option (List Char)}
    (plain : ':' ∉ host) (digits : ∀ text ∈ number, IsNumber text) :
    dropHostNumber (host ++ numberPart number) = host := by
  cases number with
  | none =>
    rw [numberPart, List.append_nil, dropHostNumber, Text.cutLast_eq_none_iff.mpr plain]
  | some text =>
    have number := digits text rfl
    rw [numberPart, dropHostNumber, Text.cutLast_append_sep host (number.not_mem rfl)]
    dsimp only
    rw [isHostNumber_iff.mpr number, Bool.or_true, if_pos rfl]

/-- User and number go, and what they stood around is left. -/
theorem host_of_authority (user : Option (List Char)) {host : List Char}
    {number : Option (List Char)} (plain : ∀ c ∈ host, c ≠ '/' ∧ c ≠ ':' ∧ c ≠ '@' ∧ Visible c)
    (digits : ∀ text ∈ number, IsNumber text) :
    dropHostNumber (dropUser (userPart user ++ host ++ numberPart number)) = host := by
  have nameless : '@' ∉ host ++ numberPart number := by
    rw [List.mem_append, not_or]
    exact ⟨fun sign => (plain '@' sign).2.2.1 rfl, not_mem_numberPart digits (by decide) rfl⟩
  rw [List.append_assoc, dropUser_userPart user nameless]
  exact dropHostNumber_numberPart (fun colon => (plain ':' colon).2.1 rfl) digits

theorem userPart_all {user : Option (List Char)} {Holds : Char → Prop}
    (names : ∀ name ∈ user, ∀ c ∈ name, Holds c) (sign : Holds '@') :
    ∀ c ∈ userPart user, Holds c := by
  intro c member
  cases user with
  | none => cases member
  | some name =>
    rcases List.mem_append.mp member with inside | last
    · exact names name rfl c inside
    · rw [List.mem_singleton.mp last]
      exact sign

theorem numberPart_all {number : Option (List Char)} {Holds : Char → Prop}
    (digits : ∀ text ∈ number, IsNumber text) (colon : Holds ':')
    (digit : ∀ c : Char, c.isDigit = true → Holds c) : ∀ c ∈ numberPart number, Holds c := by
  intro c member
  cases number with
  | none => cases member
  | some text =>
    rcases List.mem_cons.mp member with rfl | inside
    · exact colon
    · exact digit c ((digits text rfl).2 c inside)

/-- Without a scheme, no separator stands before the end of the host. -/
theorem head_plain {user : Option (List Char)} {host : List Char}
    (names : ∀ name ∈ user, ∀ c ∈ name, c ≠ '/' ∧ c ≠ ':' ∧ Visible c)
    (plain : ∀ c ∈ host, c ≠ '/' ∧ c ≠ ':' ∧ c ≠ '@' ∧ Visible c) :
    ∀ c ∈ userPart user ++ host, c ≠ '/' ∧ c ≠ ':' := by
  rw [List.forall_mem_append]
  refine ⟨userPart_all (fun name member c inside => ?_) (by decide), fun c member => ?_⟩
  · exact ⟨(names name member c inside).1, (names name member c inside).2.1⟩
  · exact ⟨(plain c member).1, (plain c member).2.1⟩

theorem visible_of_isDigit {c : Char} (digit : c.isDigit = true) : Visible c := by
  simp [Char.isDigit, UInt32.le_iff_toNat_le] at digit
  simp [Visible, Text.isBlank, Text.isControl]
  omega

section Splitting
variable {before path : List Char}

/-- With a scheme, the path begins after the first slash that is no part of its mark. -/
theorem splitAuthority_full {scheme : List Char} (plain : ¬ [':', '/', '/'] <:+: scheme)
    (undivided : '/' ∉ before) (path : List Char) :
    splitAuthority (scheme ++ ':' :: '/' :: '/' :: (before ++ '/' :: path)) = (before, path) := by
  rw [splitAuthority, afterScheme_append plain]
  dsimp only
  rw [Text.cutFirst_append_sep undivided]
  rfl

/-- A number after the host makes no scheme of it, though a slash follows later. -/
theorem afterScheme_bare {number : Option (List Char)} (noColon : ':' ∉ before)
    (digits : ∀ text ∈ number, IsNumber text) (colonless : ':' ∉ path) :
    afterScheme (before ++ numberPart number ++ '/' :: path) = none := by
  have noColonAfter : ':' ∉ '/' :: path := List.not_mem_cons_of_ne_of_not_mem (by decide) colonless
  cases number with
  | none =>
    rw [numberPart, List.append_nil, afterScheme_append_of_not_mem noColon,
      afterScheme_of_not_mem noColonAfter]
  | some text =>
    have number := digits text rfl
    rw [numberPart, List.append_assoc, List.cons_append]
    refine afterScheme_single_colon noColon ?_ ?_
    · rw [List.mem_append, not_or]
      exact ⟨number.not_mem rfl, noColonAfter⟩
    · exact head?_ne_of_not_mem number.1 (number.not_mem rfl) _

/-- With the host first, the path begins at the first slash, and a number after the
host is no path. -/
theorem splitAuthority_bare {number : Option (List Char)}
    (plain : ∀ c ∈ before, c ≠ '/' ∧ c ≠ ':') (digits : ∀ text ∈ number, IsNumber text)
    (colonless : ':' ∉ path) :
    splitAuthority (before ++ numberPart number ++ '/' :: path) =
      (before ++ numberPart number, '/' :: path) := by
  have noColon : ':' ∉ before := fun colon => (plain ':' colon).2 rfl
  have whole : '/' ∉ before ++ numberPart number := by
    rw [List.mem_append, not_or]
    exact ⟨fun slash => (plain '/' slash).1 rfl, not_mem_numberPart digits (by decide) rfl⟩
  have undivided : ∀ c ∈ before ++ numberPart number, (c != '/') = true := fun c member => by
    simpa using ne_of_mem_of_not_mem member whole
  rw [splitAuthority, afterScheme_bare noColon digits colonless]
  dsimp only
  rw [List.takeWhile_append_of_pos undivided, List.dropWhile_append_of_pos undivided,
    List.takeWhile_cons_of_neg (by decide), List.dropWhile_cons_of_neg (by decide),
    List.append_nil]
  cases number with
  | none =>
    rw [numberPart, List.append_nil, Text.cutLast_eq_none_iff.mpr noColon]
  | some text =>
    have number := digits text rfl
    rw [numberPart, Text.cutLast_append_sep before (number.not_mem rfl)]
    dsimp only
    rw [if_pos (isHostNumber_iff.mpr number)]

/-- A short address is divided at its colon, unless a number follows it. -/
theorem splitAuthority_short (plain : ∀ c ∈ before, c ≠ '/' ∧ c ≠ ':') (colonless : ':' ∉ path)
    (begins : ∀ c ∈ path.head?, c ≠ '/') (other : ¬ IsNumber (path.takeWhile (· != '/'))) :
    splitAuthority (before ++ ':' :: path) = (before, path) := by
  have noColon : ':' ∉ before := fun colon => (plain ':' colon).2 rfl
  have undivided : ∀ c ∈ before, (c != '/') = true := fun c member => by
    simpa using (plain c member).1
  have noColonAfter : ':' ∉ path.takeWhile (· != '/') := fun colon =>
    colonless ((List.takeWhile_sublist _).subset colon)
  rw [splitAuthority, afterScheme_single_colon noColon colonless begins]
  dsimp only
  rw [List.takeWhile_append_of_pos undivided, List.dropWhile_append_of_pos undivided,
    List.takeWhile_cons_of_pos (by decide), List.dropWhile_cons_of_pos (by decide),
    Text.cutLast_append_sep before noColonAfter]
  dsimp only
  rw [if_neg (mt isHostNumber_iff.mp other), List.takeWhile_append_dropWhile]

end Splitting

/-- A path starts with its first segment, so it starts with a number only if that is
one. -/
theorem not_isNumber_start {first : List Char} (some : first ≠ []) (whole : '/' ∉ first)
    (other : ¬ IsNumber first) (rest : List Char) :
    ¬ IsNumber ((first ++ rest).takeWhile (· != '/')) := by
  have undivided : ∀ c ∈ first, (c != '/') = true := fun c member => by
    simpa using ne_of_mem_of_not_mem member whole
  rw [List.takeWhile_append_of_pos undivided]
  rintro ⟨_, digits⟩
  exact other ⟨some, fun c member => digits c (List.mem_append_left _ member)⟩

/-- However the path of such a repository is written, no colon comes into it. -/
theorem Spellable.path_plain {host path : List Char} {segments : List (List Char)}
    (spellable : Spellable host segments) (written : WritesPath segments path) :
    ∀ c ∈ path, c ≠ ':' ∧ Visible c := by
  refine written.all_chars ⟨by decide, rfl, rfl⟩ ?_ ?_
  · simp [gitSuffix, Visible, Text.isBlank, Text.isControl]
  · exact fun segment member c inside => (spellable.segmentPlain segment member c inside).2

/-- However the path of such a repository is written, cleaning finds its segments. -/
theorem Spellable.clean {host path : List Char} {segments : List (List Char)}
    (spellable : Spellable host segments) (written : WritesPath segments path) :
    cleanSegments path = .ok segments := by
  refine written.clean (fun segment member => ⟨fun slash => ?_, ?_⟩) fun last member => ?_
  · exact (spellable.segmentPlain segment member '/' slash).1 rfl
  · exact spellable.ordinary segment member
  · exact not_endsInGit_iff.mpr (spellable.unsuffixed last member)

/-- An address of any kind in which the host and such a path are found has the
canonical form of the two. -/
theorem Spellable.canonicalUri_of_named {address host path : List Char}
    {segments : List (List Char)} (spellable : Spellable host segments)
    (written : WritesPath segments path) (visible : ∀ c ∈ address, Visible c)
    (hostFound : namedHost address = host)
    (pathFound : cleanSegments (namedPath address) = cleanSegments path) :
    canonicalUri (String.ofList address) =
      .ok (String.ofList (host.map Char.toLower ++ '/' :: Text.joinSegments '/' segments)) := by
  rw [canonicalUri_eq_ok_iff, String.toList_ofList, String.toList_ofList, canonicalChars_eq_ok_iff,
    hostFound, pathFound, spellable.clean written]
  refine ⟨visible, spellable.hosted, segments, rfl, ?_⟩
  rw [assemble, Text.flatMap_sep_eq_joinSegments '/' spellable.segmented]

namespace Spelling
variable {host path : List Char} {segments : List (List Char)} {spelling : Spelling}

/-- The host and the path are found in an address of every shape. A slash before the
path may be left, which says nothing. -/
theorem named (spellable : Spellable host segments) (proper : spelling.Proper segments)
    (written : WritesPath segments path) :
    namedHost (spelling.write host path) = host ∧
      cleanSegments (namedPath (spelling.write host path)) = cleanSegments path := by
  have plain := spellable.hostPlain
  have colonless : ':' ∉ path := fun colon => (spellable.path_plain written ':' colon).1 rfl
  cases spelling with
  | full scheme user number =>
    obtain ⟨schemePlain, _, names, digits⟩ := proper
    have noSlash : ∀ c ∈ userPart user, c ≠ '/' :=
      userPart_all (fun name member c inside => (names name member c inside).1) (by decide)
    have undivided : '/' ∉ userPart user ++ host ++ numberPart number := by
      rw [List.mem_append, List.mem_append, not_or, not_or]
      exact ⟨⟨fun slash => noSlash '/' slash rfl, fun slash => (plain '/' slash).1 rfl⟩,
        not_mem_numberPart digits (by decide) rfl⟩
    have split : splitAuthority (write host path (.full scheme user number)) = _ :=
      splitAuthority_full schemePlain undivided path
    rw [namedHost, namedPath, split]
    exact ⟨host_of_authority user plain digits, rfl⟩
  | bare user number =>
    obtain ⟨names, digits⟩ := proper
    have split : splitAuthority (write host path (.bare user number)) = _ :=
      splitAuthority_bare (head_plain names plain) digits colonless
    rw [namedHost, namedPath, split]
    exact ⟨host_of_authority user plain digits, cleanSegments_slash path⟩
  | short user =>
    obtain ⟨names, other⟩ := proper
    obtain ⟨first, head, rest, rfl⟩ := written.begins
    have member := List.mem_of_mem_head? head
    have some := (spellable.ordinary first member).1
    have whole : '/' ∉ first := fun slash => (spellable.segmentPlain first member '/' slash).1 rfl
    have split : splitAuthority (write host (first ++ rest) (.short user)) = _ :=
      splitAuthority_short (head_plain names plain) colonless
        (head?_ne_of_not_mem some whole rest)
        (not_isNumber_start some whole (other first head) rest)
    rw [namedHost, namedPath, split]
    have numberless : ∀ text ∈ (none : Option (List Char)), IsNumber text := by simp
    have found := host_of_authority user plain numberless
    rw [numberPart, List.append_nil] at found
    exact ⟨found, rfl⟩

/-- An address of any shape is visible where its parts are. -/
theorem visible (spellable : Spellable host segments) (proper : spelling.Proper segments)
    (written : WritesPath segments path) : ∀ c ∈ spelling.write host path, Visible c := by
  have hostVisible : ∀ c ∈ host, Visible c := fun c member => (spellable.hostPlain c member).2.2.2
  have pathVisible : ∀ c ∈ path, Visible c := fun c member =>
    (spellable.path_plain written c member).2
  have colon : Visible ':' := ⟨rfl, rfl⟩
  have slash : Visible '/' := ⟨rfl, rfl⟩
  have sign : Visible '@' := ⟨rfl, rfl⟩
  have digit : ∀ c : Char, c.isDigit = true → Visible c := fun _ => visible_of_isDigit
  cases spelling with
  | full scheme user number =>
    obtain ⟨_, schemeVisible, names, digits⟩ := proper
    have userVisible :=
      userPart_all (fun name member c inside => (names name member c inside).2) sign
    simp only [write, List.forall_mem_append, List.forall_mem_cons]
    exact ⟨schemeVisible, colon, slash, slash,
      ⟨⟨userVisible, hostVisible⟩, numberPart_all digits colon digit⟩, slash, pathVisible⟩
  | bare user number =>
    obtain ⟨names, digits⟩ := proper
    have userVisible :=
      userPart_all (fun name member c inside => (names name member c inside).2.2) sign
    simp only [write, List.forall_mem_append, List.forall_mem_cons]
    exact ⟨⟨⟨userVisible, hostVisible⟩, numberPart_all digits colon digit⟩, slash, pathVisible⟩
  | short user =>
    obtain ⟨names, _⟩ := proper
    have userVisible :=
      userPart_all (fun name member c inside => (names name member c inside).2.2) sign
    simp only [write, List.forall_mem_append, List.forall_mem_cons]
    exact ⟨⟨userVisible, hostVisible⟩, colon, pathVisible⟩

/-- All spellings of one repository have one canonical form: the host in small
letters and the segments, joined by slashes. -/
theorem canonicalUri_write (spellable : Spellable host segments)
    (proper : spelling.Proper segments) (written : WritesPath segments path) :
    canonicalUri (String.ofList (spelling.write host path)) =
      .ok (String.ofList (host.map Char.toLower ++ '/' :: Text.joinSegments '/' segments)) := by
  obtain ⟨hostFound, pathFound⟩ := named spellable proper written
  exact spellable.canonicalUri_of_named written (visible spellable proper written) hostFound
    pathFound

/-- A scheme, a user, a number, a dot segment, a suffix and a slash at the end. -/
theorem canonicalUri_write_everything :
    Spellable "GitHub.com".toList ["foo".toList, "bar".toList] ∧
      (full "ssh".toList (some "git".toList) (some "22".toList)).Proper
        ["foo".toList, "bar".toList] ∧
      WritesPath ["foo".toList, "bar".toList] "foo/./bar.git/".toList ∧
      canonicalUri "ssh://git@GitHub.com:22/foo/./bar.git/" = .ok "github.com/foo/bar" := by
  have spellable : Spellable "GitHub.com".toList ["foo".toList, "bar".toList] := by
    constructor
    case hostPlain => simp [Visible, Text.isBlank, Text.isControl]
    case segmentPlain => simp [Visible, Text.isBlank, Text.isControl]
    all_goals decide
  have proper : (full "ssh".toList (some "git".toList) (some "22".toList)).Proper
      ["foo".toList, "bar".toList] := by
    refine ⟨by decide, ?_, ?_, ?_⟩
    · simp [Visible, Text.isBlank, Text.isControl]
    · simp [Visible, Text.isBlank, Text.isControl]
    · simp [IsNumber]
  have silent : ∀ filler ∈ [['.']], Silent filler := by decide
  have written : WritesPath ["foo".toList, "bar".toList] "foo/./bar.git/".toList :=
    ⟨_, gitSuffix, 1, .cons _ silent (.single _), .inr rfl, rfl⟩
  have made := canonicalUri_write spellable proper written
  have spelled : String.ofList ((full "ssh".toList (some "git".toList) (some "22".toList)).write
      "GitHub.com".toList "foo/./bar.git/".toList) = "ssh://git@GitHub.com:22/foo/./bar.git/" := rfl
  rw [spelled] at made
  exact ⟨spellable, proper, written, made⟩

/-- The short shape in the same way; but digits alone after the colon are no path. -/
example : canonicalUri "me@h:22a//b" = .ok "h/22a/b" ∧ canonicalUri "h:22/b" = .ok "h/b" :=
  ⟨rfl, rfl⟩

end Spelling
end SymbolAtlas.Repo
