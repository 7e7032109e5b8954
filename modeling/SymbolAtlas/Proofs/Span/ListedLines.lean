import SymbolAtlas.Proofs.Text.Quoting
import SymbolAtlas.Proofs.Text.Splitting
import SymbolAtlas.Span.Listing

/-! What the listing of a batch tells of it. Only the text of a documentation is quoted,
and it can be read back from its line whatever it is. All other parts stand in the line
as they are, with fixed words and separators between them, and an empty repository looks
like one that is called by a dot. So a line tells what it shows as long as no part looks
like what follows it, and a listing tells its lines as long as no part divides one. -/
namespace SymbolAtlas

/-! ### What a line shows -/

/-- The key with the repository as it is shown. -/
def SymbolKey.shown (k : SymbolKey) : SymbolKey :=
  { k with repo := if k.repo = "" then "." else k.repo }

/-- What a line shows of a definition: everything but the analyzer's notes. -/
def Definition.printed (d : Definition) : Definition :=
  { d with key := d.key.shown, data := .null }

/-- What a line shows of a reference: everything but the unit that it occurs in. -/
def Reference.printed (r : Reference) : Reference :=
  { r with target := r.target.shown, repo := "", unitType := "", unit := "" }

/-- What a line shows of a documentation: all of it. -/
def Documentation.printed (d : Documentation) : Documentation :=
  { d with key := d.key.shown }

/-- The parts of a key that stand in a line as they are. -/
def SymbolKey.texts (k : SymbolKey) : List String := [k.repo, k.unitType, k.unit, k.path]

def Definition.texts (d : Definition) : List String :=
  d.extent.file :: d.name :: d.kind :: d.key.texts

def Reference.texts (r : Reference) : List String := r.extent.file :: r.target.texts

def Documentation.texts (d : Documentation) : List String :=
  d.extent.file :: d.format :: d.key.texts

/-- All parts of a batch that its listing shows as they are. -/
def Batch.texts (b : Batch) : List String :=
  b.definitions.flatMap Definition.texts ++ b.references.flatMap Reference.texts ++
    b.documentation.flatMap Documentation.texts

/-- No listed extent stands in the file name. -/
def Extent.Legible (e : Extent) : Prop :=
  ∀ other : Extent, ¬ other.listing.toList <:+: e.file.toList

/-- The first three colons of the key are those between its parts. -/
def SymbolKey.Plain (k : SymbolKey) : Prop :=
  ∀ part ∈ [k.repo, k.unitType, k.unit], ':' ∉ part.toList

/-- No part of the definition looks like what follows it in the line. -/
structure Definition.Legible (d : Definition) : Prop where
  extent : d.extent.Legible
  key : d.key.Plain
  path : ¬ " name=".toList <:+: d.key.path.toList
  name : ¬ " kind=".toList <:+: d.name.toList
  label : ¬ " exported".toList <:+ (if d.kind = "" then d.name else d.kind).toList

/-- No part of the reference looks like what follows it in the line. -/
structure Reference.Legible (r : Reference) : Prop where
  extent : r.extent.Legible
  target : r.target.Plain
  path : ¬ " (def)".toList <:+ r.target.path.toList

/-- No part of the documentation looks like what follows it in the line. The path may
have spaces, since the media type is the last word before the quotes. -/
structure Documentation.Legible (d : Documentation) : Prop where
  extent : d.extent.Legible
  key : d.key.Plain
  format : ' ' ∉ d.format.toList

/-! ### Parts of a line -/

theorem positionText_toList (n : UInt32) : (positionText n).toList = Decimal.digits n.toNat := by
  rw [positionText, String.toList_ofList]

theorem not_mem_positionText {c : Char} (other : c.isDigit = false) (n : UInt32) :
    c ∉ (positionText n).toList := by
  intro member
  rw [positionText_toList] at member
  rw [Json.isDigit_of_mem_digits member] at other
  cases other

theorem positionText_injective {m n : UInt32}
    (same : (positionText m).toList = (positionText n).toList) : m = n := by
  rw [positionText_toList, positionText_toList] at same
  exact UInt32.toNat_inj.mp (Decimal.digits_injective same)

namespace Extent
variable {e f : Extent} {rest more : List Char}

/-- The positions in their brackets. -/
def range (e : Extent) : List Char :=
  '[' :: ((positionText e.start).toList ++
    '.' :: '.' :: ((positionText e.stop).toList ++ [']']))

theorem listing_toList (e : Extent) : e.listing.toList = e.file.toList ++ ' ' :: e.range := by
  simp [listing, range]

theorem space_not_mem_range (e : Extent) : ' ' ∉ e.range := by
  simp [range, not_mem_positionText]

/-- The positions end at the dots and at the bracket. -/
theorem range_append_inj (same : e.range ++ rest = f.range ++ more) :
    e.start = f.start ∧ e.stop = f.stop ∧ rest = more := by
  simp only [range, List.cons_append, List.append_assoc, List.nil_append] at same
  obtain ⟨starts, same⟩ := Text.append_sep_inj (not_mem_positionText (by decide) e.start)
    (not_mem_positionText (by decide) f.start) (List.cons.inj same).2
  obtain ⟨stops, same⟩ := Text.append_sep_inj (not_mem_positionText (by decide) e.stop)
    (not_mem_positionText (by decide) f.stop) (List.cons.inj same).2
  exact ⟨positionText_injective starts, positionText_injective stops, same⟩

theorem Legible.range_apart (legible : e.Legible) (f : Extent) :
    ¬ ' ' :: f.range <:+: e.file.toList := by
  have nameless := legible { f with file := "" }
  rwa [listing_toList] at nameless

/-- An extent ends at its bracket, and its file where the first extent is listed. -/
theorem listing_append_inj (first : e.Legible) (second : f.Legible)
    (same : e.listing.toList ++ rest = f.listing.toList ++ more) : e = f ∧ rest = more := by
  rw [listing_toList, listing_toList, List.append_assoc, List.append_assoc, List.cons_append,
    List.cons_append] at same
  obtain ⟨files, same⟩ := Text.append_words_inj e.space_not_mem_range f.space_not_mem_range
    (first.range_apart f) (second.range_apart e) same
  obtain ⟨starts, stops, same⟩ := range_append_inj same
  refine ⟨?_, same⟩
  cases e
  cases f
  simp only [mk.injEq]
  exact ⟨String.toList_inj.mp files, starts, stops⟩

end Extent

namespace SymbolKey
variable {k l : SymbolKey} {rest more : List Char}

theorem listing_append (k : SymbolKey) (rest : List Char) :
    k.listing.toList ++ rest = k.shown.repo.toList ++ ':' :: (k.unitType.toList ++
      ':' :: (k.unit.toList ++ ':' :: (k.path.toList ++ rest))) := by
  simp [listing, shown]

theorem Plain.shown_repo (plain : k.Plain) : ':' ∉ k.shown.repo.toList := by
  unfold shown
  dsimp only
  split
  · decide
  · exact plain k.repo List.mem_cons_self

/-- The first three parts of a key end at its colons. -/
theorem listing_append_inj (first : k.Plain) (second : l.Plain)
    (same : k.listing.toList ++ rest = l.listing.toList ++ more) :
    k.shown.repo = l.shown.repo ∧ k.unitType = l.unitType ∧ k.unit = l.unit ∧
      k.path.toList ++ rest = l.path.toList ++ more := by
  rw [listing_append, listing_append] at same
  obtain ⟨repos, same⟩ := Text.append_sep_inj first.shown_repo second.shown_repo same
  obtain ⟨types, same⟩ := Text.append_sep_inj (first k.unitType (by simp))
    (second l.unitType (by simp)) same
  obtain ⟨units, same⟩ := Text.append_sep_inj (first k.unit (by simp))
    (second l.unit (by simp)) same
  exact ⟨String.toList_inj.mp repos, String.toList_inj.mp types, String.toList_inj.mp units, same⟩

theorem shown_ext (repos : k.shown.repo = l.shown.repo) (types : k.unitType = l.unitType)
    (units : k.unit = l.unit) (paths : k.path = l.path) : k.shown = l.shown := by
  unfold shown at *
  simp only [mk.injEq]
  exact ⟨repos, types, units, paths⟩

end SymbolKey

/-! ### One line -/

namespace Definition
variable {d e : Definition}

/-- The name and the kind, as they stand before the mark of visibility. -/
def label (d : Definition) : List Char :=
  d.name.toList ++ if d.kind = "" then [] else ' ' :: ("kind=".toList ++ d.kind.toList)

theorem listing_toList (d : Definition) : d.listing.toList = "def ".toList ++
    (d.extent.listing.toList ++ ' ' :: (d.key.listing.toList ++ ' ' :: ("name=".toList ++
      (d.label ++ if d.exported then " exported".toList else [])))) := by
  unfold listing label
  split <;> split <;> simp

/-- The kind, if there is one, begins at the first word for it. -/
theorem label_inj (first : ¬ " kind=".toList <:+: d.name.toList)
    (second : ¬ " kind=".toList <:+: e.name.toList) (same : d.label = e.label) :
    d.name = e.name ∧ d.kind = e.kind := by
  unfold label at same
  split at same <;> split at same
  · rename_i none noneHere
    rw [List.append_nil, List.append_nil] at same
    exact ⟨String.toList_inj.mp same, none.trans noneHere.symm⟩
  · rw [List.append_nil] at same
    rw [same] at first
    exact absurd ⟨e.name.toList, e.kind.toList, by simp⟩ first
  · rw [List.append_nil] at same
    rw [← same] at second
    exact absurd ⟨d.name.toList, d.kind.toList, by simp⟩ second
  · obtain ⟨names, kinds⟩ := Text.append_marker_inj (by decide) first second same
    exact ⟨String.toList_inj.mp names, String.toList_inj.mp kinds⟩

theorem Legible.label_unmarked (legible : d.Legible) : ¬ " exported".toList <:+ d.label := by
  have unmarked := legible.label
  unfold Definition.label
  split at unmarked
  · rw [if_pos ‹d.kind = ""›, List.append_nil]
    exact unmarked
  · intro marked
    rw [if_neg ‹¬ d.kind = ""›] at marked
    have split : d.name.toList ++ ' ' :: ("kind=".toList ++ d.kind.toList) =
        (d.name.toList ++ " kind".toList) ++ '=' :: d.kind.toList := by simp
    rw [split] at marked
    exact unmarked (Text.suffix_of_suffix_append_sep (by decide) marked)

theorem printed_eq (first : d.Legible) (second : e.Legible) (same : d.listing = e.listing) :
    d.printed = e.printed := by
  have same := congrArg String.toList same
  rw [listing_toList, listing_toList] at same
  obtain ⟨extents, same⟩ :=
    Extent.listing_append_inj first.extent second.extent (List.append_cancel_left same)
  obtain ⟨repos, types, units, same⟩ :=
    SymbolKey.listing_append_inj first.key second.key (List.cons.inj same).2
  obtain ⟨paths, same⟩ := Text.append_marker_inj (by decide) first.path second.path same
  obtain ⟨labels, marks⟩ := Text.append_mark_inj first.label_unmarked second.label_unmarked same
  obtain ⟨names, kinds⟩ := label_inj first.name second.name labels
  have keys := SymbolKey.shown_ext repos types units (String.toList_inj.mp paths)
  simp only [printed, mk.injEq]
  exact ⟨keys, names, kinds, extents, marks, trivial⟩

end Definition

namespace Reference
variable {r q : Reference}

theorem listing_toList (r : Reference) : r.listing.toList = "ref ".toList ++
    (r.extent.listing.toList ++ (" -> ".toList ++ (r.target.listing.toList ++
      if r.isDefinition then " (def)".toList else []))) := by
  unfold listing
  split <;> simp

theorem printed_eq (first : r.Legible) (second : q.Legible) (same : r.listing = q.listing) :
    r.printed = q.printed := by
  have same := congrArg String.toList same
  rw [listing_toList, listing_toList] at same
  obtain ⟨extents, same⟩ :=
    Extent.listing_append_inj first.extent second.extent (List.append_cancel_left same)
  obtain ⟨repos, types, units, same⟩ :=
    SymbolKey.listing_append_inj first.target second.target (List.append_cancel_left same)
  obtain ⟨paths, marks⟩ := Text.append_mark_inj first.path second.path same
  have targets := SymbolKey.shown_ext repos types units (String.toList_inj.mp paths)
  simp only [printed, mk.injEq]
  exact ⟨targets, marks, trivial, trivial, trivial, extents⟩

end Reference

namespace Documentation
variable {d e : Documentation}

theorem listing_toList (d : Documentation) : d.listing.toList = "doc ".toList ++
    (d.extent.listing.toList ++ ' ' :: (d.key.listing.toList ++
      ' ' :: (d.format.toList ++ ' ' :: (Text.quotedBy .standard d.text).toList))) := by
  simp [listing, listingBy]

theorem printed_eq (first : d.Legible) (second : e.Legible) (same : d.listing = e.listing) :
    d.printed = e.printed := by
  have same := congrArg String.toList same
  rw [listing_toList, listing_toList] at same
  obtain ⟨extents, same⟩ :=
    Extent.listing_append_inj first.extent second.extent (List.append_cancel_left same)
  obtain ⟨repos, types, units, same⟩ :=
    SymbolKey.listing_append_inj first.key second.key (List.cons.inj same).2
  -- From the end: first the quotes, then the last word before them.
  rw [← List.cons_append, ← List.cons_append, ← List.append_assoc, ← List.append_assoc] at same
  obtain ⟨fronts, texts⟩ := Text.append_quotedBy_inj same
  have paths := congrArg (Text.cutLast ' ') fronts
  rw [Text.cutLast_append_sep _ first.format, Text.cutLast_append_sep _ second.format] at paths
  simp only [Option.some.injEq, Prod.mk.injEq] at paths
  have keys := SymbolKey.shown_ext repos types units (String.toList_inj.mp paths.1)
  simp only [printed, mk.injEq]
  exact ⟨keys, String.toList_inj.mp paths.2, texts, extents⟩

end Documentation

/-! ### All lines -/

theorem Extent.newline_not_mem_listing {e : Extent} (whole : '\n' ∉ e.file.toList) :
    '\n' ∉ e.listing.toList := by
  simp [listing, not_mem_positionText, whole]

theorem SymbolKey.newline_not_mem_listing {k : SymbolKey}
    (whole : ∀ part ∈ k.texts, '\n' ∉ part.toList) : '\n' ∉ k.listing.toList := by
  simp only [texts, List.forall_mem_cons] at whole
  unfold listing
  split <;> simp [whole]

theorem Definition.newline_not_mem_listing {d : Definition}
    (whole : ∀ part ∈ d.texts, '\n' ∉ part.toList) : '\n' ∉ d.listing.toList := by
  simp only [texts, List.forall_mem_cons] at whole
  obtain ⟨file, name, kind, key⟩ := whole
  unfold listing
  split <;> split <;>
    simp [Extent.newline_not_mem_listing file, SymbolKey.newline_not_mem_listing key, name, kind]

theorem Reference.newline_not_mem_listing {r : Reference}
    (whole : ∀ part ∈ r.texts, '\n' ∉ part.toList) : '\n' ∉ r.listing.toList := by
  simp only [texts, List.forall_mem_cons] at whole
  obtain ⟨file, target⟩ := whole
  unfold listing
  split <;> simp [Extent.newline_not_mem_listing file, SymbolKey.newline_not_mem_listing target]

theorem Documentation.newline_not_mem_listing {d : Documentation}
    (whole : ∀ part ∈ d.texts, '\n' ∉ part.toList) : '\n' ∉ d.listing.toList := by
  simp only [texts, List.forall_mem_cons] at whole
  obtain ⟨file, format, key⟩ := whole
  have quoted : '\n' ∉ (Text.quotedBy .standard d.text).toList := by
    intro member
    have visible := Text.quotedBy_visible .standard d.text '\n' member
    cases visible
  simp [listing, listingBy, Extent.newline_not_mem_listing file,
    SymbolKey.newline_not_mem_listing key, format, quoted]

namespace Batch
variable {a b : Batch}

theorem newline_not_mem_lines (whole : ∀ part ∈ b.texts, '\n' ∉ part.toList) :
    ∀ line ∈ b.lines, '\n' ∉ line.toList := by
  simp only [texts, List.forall_mem_append, List.forall_mem_flatMap] at whole
  obtain ⟨⟨definitions, references⟩, documentation⟩ := whole
  simp only [lines, List.forall_mem_append, List.forall_mem_map]
  exact ⟨⟨fun d member => Definition.newline_not_mem_listing (definitions d member),
    fun r member => Reference.newline_not_mem_listing (references r member)⟩,
    fun d member => Documentation.newline_not_mem_listing (documentation d member)⟩

theorem segments_listing (whole : ∀ part ∈ b.texts, '\n' ∉ part.toList) :
    Text.segments '\n' b.listing.toList = b.lines.map String.toList ++ [[]] := by
  have wholes : ∀ line ∈ b.lines.map String.toList, '\n' ∉ line :=
    List.forall_mem_map.mpr (newline_not_mem_lines whole)
  have split := Text.segments_flatMap_append wholes []
  have ended : b.listing.toList = (b.lines.map String.toList).flatMap (· ++ ['\n']) ++ [] := by
    simp [listing, List.flatMap_map]
  rw [ended, split]
  rfl

theorem lines_of_listing (first : ∀ part ∈ a.texts, '\n' ∉ part.toList)
    (second : ∀ part ∈ b.texts, '\n' ∉ part.toList) (same : a.listing = b.listing) :
    a.lines = b.lines := by
  have split := segments_listing first
  rw [same, segments_listing second] at split
  exact List.map_injective_iff.mpr (fun _ _ => String.toList_inj.mp)
    (List.append_cancel_right split.symm)

/-- The lines that begin with a word of three letters and a space. -/
def linesOf (word : List Char) (b : Batch) : List String :=
  b.lines.filter (·.toList.take 4 = word)

theorem linesOf_kind {α : Type} {listing : α → String} {first : List Char}
    (begins : ∀ a, (listing a).toList.take 4 = first) (word : List Char) (spans : List α) :
    (spans.map listing).filter (·.toList.take 4 = word) =
      if first = word then spans.map listing else [] := by
  split
  · rw [List.filter_eq_self]
    simp [*]
  · rw [List.filter_eq_nil_iff]
    simp [*]

/-- The first word of a line says which kind of span it shows. -/
theorem linesOf_eq (word : List Char) (b : Batch) : b.linesOf word =
    (if "def ".toList = word then b.definitions.map Definition.listing else []) ++
      (if "ref ".toList = word then b.references.map Reference.listing else []) ++
      (if "doc ".toList = word then b.documentation.map Documentation.listing else []) := by
  have definitions (d : Definition) : d.listing.toList.take 4 = "def ".toList := by
    rw [Definition.listing_toList]
    exact List.take_left' rfl
  have references (r : Reference) : r.listing.toList.take 4 = "ref ".toList := by
    rw [Reference.listing_toList]
    exact List.take_left' rfl
  have documentation (d : Documentation) : d.listing.toList.take 4 = "doc ".toList := by
    rw [Documentation.listing_toList]
    exact List.take_left' rfl
  rw [linesOf, lines, List.filter_append, List.filter_append, linesOf_kind definitions,
    linesOf_kind references, linesOf_kind documentation]

/-- So the lines of a batch tell those of each kind. -/
theorem kinds_of_lines (same : a.lines = b.lines) :
    a.definitions.map Definition.listing = b.definitions.map Definition.listing ∧
      a.references.map Reference.listing = b.references.map Reference.listing ∧
      a.documentation.map Documentation.listing = b.documentation.map Documentation.listing := by
  have alike (word : List Char) : a.linesOf word = b.linesOf word := by rw [linesOf, same, linesOf]
  refine ⟨?_, ?_, ?_⟩
  · simpa [linesOf_eq] using alike "def ".toList
  · simpa [linesOf_eq] using alike "ref ".toList
  · simpa [linesOf_eq] using alike "doc ".toList

theorem forall₂_of_listings {α : Type} {listing : α → String} {R : α → α → Prop}
    (tells : ∀ x y, listing x = listing y → R x y) {xs ys : List α}
    (same : xs.map listing = ys.map listing) : List.Forall₂ R xs ys := by
  rw [← List.forall₂_eq_eq_eq, List.forall₂_map_left_iff, List.forall₂_map_right_iff] at same
  exact same.imp tells

/-- Where no part has a newline, the listing has a line for each span, definitions
first, then references, then documentation. Two such listings that are equal have equal
lines, span by span, and a pair of spans whose parts do not look like what follows them
agrees on everything that is shown. -/
theorem listing_tells_lines (a b : Batch) (first : ∀ part ∈ a.texts, '\n' ∉ part.toList)
    (second : ∀ part ∈ b.texts, '\n' ∉ part.toList) :
    (Text.segments '\n' a.listing.toList =
        (a.definitions.map Definition.listing ++ a.references.map Reference.listing ++
          a.documentation.map Documentation.listing).map String.toList ++ [[]] ∧
      (Text.segments '\n' a.listing.toList).length = a.size + 1) ∧
    (a.listing = b.listing →
      List.Forall₂ (fun d e => d.listing = e.listing ∧
        (d.Legible → e.Legible → d.printed = e.printed)) a.definitions b.definitions ∧
      List.Forall₂ (fun r q => r.listing = q.listing ∧
        (r.Legible → q.Legible → r.printed = q.printed)) a.references b.references ∧
      List.Forall₂ (fun d e => d.listing = e.listing ∧
        (d.Legible → e.Legible → d.printed = e.printed)) a.documentation b.documentation) := by
  have split := segments_listing first
  refine ⟨⟨split, ?_⟩, fun same => ?_⟩
  · rw [split, List.length_append, List.length_map, length_lines]
    rfl
  · obtain ⟨definitions, references, documentation⟩ :=
      kinds_of_lines (lines_of_listing first second same)
    refine ⟨forall₂_of_listings ?_ definitions, forall₂_of_listings ?_ references,
      forall₂_of_listings ?_ documentation⟩
    · exact fun d e same => ⟨same, fun first second => Definition.printed_eq first second same⟩
    · exact fun r q same => ⟨same, fun first second => Reference.printed_eq first second same⟩
    · exact fun d e same => ⟨same, fun first second => Documentation.printed_eq first second same⟩

/-- Two listings that are equal, with a space and a bracket in a file name and a text of
two lines. -/
theorem listing_tells_lines_of_two :
    let mention (repo unit : String) : Reference :=
      { target := { repo, unitType := "t", path := "m" }, unit
        extent := { file := "my [file", start := 1, stop := 12 } }
    let about : Documentation := { format := "text/plain", text := "two\n\"lines\"" }
    let a : Batch := { references := [mention "" "u"], documentation := [about] }
    let b : Batch := { references := [mention "." "v"], documentation := [about] }
    (Text.segments '\n' a.listing.toList).length = 3 ∧ a.listing = b.listing ∧
      (mention "" "u").printed = (mention "." "v").printed := by
  intro mention about a b
  obtain ⟨⟨_, length⟩, spans⟩ := listing_tells_lines a b (by decide) (by decide)
  have same : a.listing = b.listing := by decide
  have legible (repo unit : String) (whole : ':' ∉ repo.toList) : (mention repo unit).Legible :=
    { extent := fun other listed =>
        have closed : ']' ∈ other.listing.toList := by simp [Extent.listing]
        absurd (listed.subset closed) (by decide : ']' ∉ "my [file".toList)
      target := List.forall_mem_cons.mpr
        ⟨whole, (by decide : ∀ part ∈ ["t", ""], ':' ∉ part.toList)⟩
      path := (by decide : ¬ " (def)".toList <:+ "m".toList) }
  have pair := (List.forall₂_cons.mp (spans same).2.1).1.2
  exact ⟨length, same, pair (legible "" "u" (by decide)) (legible "." "v" (by decide))⟩

/-- Spans that differ in what their lines show and have one line: a dot shows as no
repository, and each of these parts looks like what follows it. A name with a newline
makes one definition look like two. -/
theorem listing_conflates_spans :
    let located (file path : String) : Reference := { target := { path }, extent := { file } }
    let pointing (repo unitType : String) : Reference := { target := { repo, unitType } }
    let called (path name kind : String) : Definition := { key := { path }, name, kind }
    let about (path format : String) : Documentation := { key := { path }, format }
    (pointing "." "").listing = (pointing "" "").listing ∧
    (pointing "a:b" "c").listing = (pointing "a" "b:c").listing ∧
    (located "a" "b [0..0] -> .:::").listing = (located "a [0..0] -> .:::b" "").listing ∧
    (located "" "p (def)").listing = { located "" "p" with isDefinition := true }.listing ∧
    (called "p name=n" "m" "").listing = (called "p" "n name=m" "").listing ∧
    (called "p" "n kind=k" "").listing = (called "p" "n" "k").listing ∧
    (called "p" "n exported" "").listing = { called "p" "n" "" with exported := true }.listing ∧
    (about "p q" "r").listing = (about "p" "q r").listing ∧
    ({ definitions := [called "p" "m\ndef  [0..0] .:::p name=n" ""] } : Batch).listing =
      ({ definitions := [called "p" "m" "", called "p" "n" ""] } : Batch).listing ∧
    ¬ ∀ a b : Batch, a.listing = b.listing →
      List.Forall₂ (fun r q => r.extent = q.extent ∧ r.target = q.target ∧
        r.isDefinition = q.isDefinition) a.references b.references := by
  intro located pointing called about
  refine ⟨by decide, by decide, by decide, by decide, by decide, by decide, by decide, by decide,
    by decide, fun faithful => ?_⟩
  have agrees := faithful { references := [pointing "." ""] } { references := [pointing "" ""] }
    (by decide)
  cases agrees with
  | cons pair rest => exact absurd pair.2.1 (by decide)

end Batch

/-- The text of a documentation stands in quotes at the end of its line, and nothing
before them depends on it. The quotes hold no control code, end at the first one without
a guard, spell the text character by character, and are read back by one reader. So
lines that differ in nothing but the text differ. This holds whichever characters are
spelled by their number, so that it does not depend on a version of the Unicode tables;
a listing has the lines of the standard choice. -/
theorem Documentation.listing_keeps_text (p : Text.Printability) (d : Documentation) :
    (∃ front, ∀ text, ({ d with text } : Documentation).listingBy p =
      front ++ Text.quotedBy p text) ∧
    (∀ text, (∀ c ∈ (Text.quotedBy p text).toList, Text.isControl c = false) ∧
      Text.unquoted (Text.quotedBy p text) = some text ∧
      ∃ pieces, List.Forall₂ (Text.Spells p) text.toList pieces ∧
        (Text.quotedBy p text).toList = '"' :: (pieces.flatten ++ ['"']) ∧
        ∀ after, Text.cutUnguarded false (pieces.flatten ++ '"' :: after) =
          some (pieces.flatten, after)) ∧
    ∀ text other, ({ d with text } : Documentation).listingBy p =
      ({ d with text := other } : Documentation).listingBy p ↔ text = other := by
  obtain ⟨front, written⟩ : ∃ front, ∀ text, ({ d with text } : Documentation).listingBy p =
      front ++ Text.quotedBy p text :=
    ⟨"doc " ++ d.extent.listing ++ " " ++ d.key.listing ++ " " ++ d.format ++ " ", fun _ => rfl⟩
  refine ⟨⟨front, written⟩, fun text => ⟨Text.quotedBy_visible p text,
    Text.unquoted_quotedBy p text, ?_⟩, fun text other => ⟨fun same => ?_, fun same => same ▸ rfl⟩⟩
  · obtain ⟨pieces, spelled, body⟩ := Text.spells_quotedBody p text.toList
    refine ⟨pieces, spelled, ?_⟩
    rw [← body]
    exact ⟨Text.quotedBy_toList p text, Text.cutUnguarded_quotedBody p text.toList⟩
  · rw [written, written, ← String.toList_inj, String.toList_append, String.toList_append] at same
    exact Text.quotedBy_injective (String.toList_inj.mp (List.append_cancel_left same))

end SymbolAtlas
