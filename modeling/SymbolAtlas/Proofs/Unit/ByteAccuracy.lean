import Mathlib.Data.Multiset.MapFold
import SymbolAtlas.Proofs.Span.CharacterRange
import SymbolAtlas.Unit.Registry

/-! What a unit's analysis reports in characters comes out in bytes. The path from
the analyzer to the caller resolves files, remembers them, indexes them, rewrites
two positions of each span and sorts the whole; none of it loses a span, adds one,
or moves one off the characters that it covers. -/
namespace SymbolAtlas
open PathName Utf8

/-- What becomes of one span. Only its positions may change, and only where its
name leads to a file; a span without a file name is in no file. In the file of a
text, positions that are in order and not beyond its end cover the same
characters afterwards, in bytes. -/
structure ByteAccurate {α : Type} [Spanned α] (fs : FileSystem) (root : List Char)
    (before after : α) : Prop where
  onlyExtent : after = Spanned.withExtent before (Spanned.extent after)
  sameFile : (Spanned.extent after).file = (Spanned.extent before).file
  fileless : (Spanned.extent before).file = "" → after = before
  sameRange : ∀ text, (Spanned.extent before).file ≠ "" →
    fs.HoldsText (placeOf root (Spanned.extent before).file) text →
    (Spanned.extent before).start ≤ (Spanned.extent before).stop →
    (Spanned.extent before).stop.toNat ≤ text.length →
    (Spanned.extent before).SameRange text (Spanned.extent after)

theorem inBytes_byteAccurate {α : Type} [Spanned α] (fs : FileSystem) (root : List Char) (a : α) :
    ByteAccurate fs root a (inBytes fs root a) := by
  have extent : Spanned.extent (inBytes fs root a) = (Spanned.extent a).inBytes fs root :=
    Spanned.extent_withExtent a _
  constructor
  · rw [extent]
    rfl
  · rw [extent, Extent.inBytes]
    split
    · rfl
    · exact Extent.settle_file _ _
  · intro fileless
    rw [inBytes, Extent.inBytes, if_pos fileless, Spanned.withExtent_extent]
  · intro text named holds ordered inside
    rw [extent]
    exact Extent.inBytes_sameRange named holds ordered inside

/-- Mapping and sorting relate each span to one of the results and leave none over. -/
theorem rel_sorted_map {α : Type} {R : α → α → Prop} {f : α → α} (related : ∀ a, R a (f a))
    (order : α → α → Ordering) (spans : List α) :
    Multiset.Rel R (spans : Multiset α) (sortedBy order (spans.map f) : Multiset α) := by
  have sorted : (sortedBy order (spans.map f) : Multiset α) = (spans : Multiset α).map f := by
    rw [Multiset.map_coe, Multiset.coe_eq_coe]
    exact sortedBy_perm order _
  rw [sorted, Multiset.rel_map_right]
  exact Multiset.rel_refl_of_refl_on fun a _ => related a

namespace Registry

/-- An analyzer that counts code points has its batch converted by the files and
put in order. -/
theorem graph_of_codepoints {r : Registry} {fs : FileSystem} {root : String} {unit : SourceUnit}
    {repo : RepoConfig} {grapher : Grapher} {raw : Batch}
    (registered : r.find? unit.unitType = some ⟨grapher, .codepoints⟩)
    (reported : grapher fs root unit repo = .ok raw) :
    (r.graph fs root unit repo).1 = .ok (raw.inBytes fs root.toList).sorted := by
  rw [graph, registered]
  dsimp only
  rw [reported, ← convert_batch fs root r.config raw]

/-- Whatever an analyzer that counts code points reports, the analysis of the unit
succeeds, and its spans of each kind correspond one to one to the reported ones,
each accurate in bytes. -/
theorem graph_is_byte_accurate (r : Registry) (fs : FileSystem) (root : String)
    (unit : SourceUnit) (repo : RepoConfig) {grapher : Grapher} {raw : Batch}
    (registered : r.find? unit.unitType = some ⟨grapher, .codepoints⟩)
    (reported : grapher fs root unit repo = .ok raw) :
    ∃ batch, (r.graph fs root unit repo).1 = .ok batch ∧
      Multiset.Rel (ByteAccurate fs root.toList)
        (raw.definitions : Multiset Definition) (batch.definitions : Multiset Definition) ∧
      Multiset.Rel (ByteAccurate fs root.toList)
        (raw.references : Multiset Reference) (batch.references : Multiset Reference) ∧
      Multiset.Rel (ByteAccurate fs root.toList)
        (raw.documentation : Multiset Documentation)
        (batch.documentation : Multiset Documentation) :=
  ⟨_, graph_of_codepoints registered reported,
    rel_sorted_map (inBytes_byteAccurate fs root.toList) Definition.order _,
    rel_sorted_map (inBytes_byteAccurate fs root.toList) Reference.order _,
    rel_sorted_map (inBytes_byteAccurate fs root.toList) Documentation.order _⟩

/-- A reference that covers two of four characters of different widths. -/
theorem graph_of_wide_characters :
    let text := ['a', 'é', '€', '😀']
    let fs : FileSystem :=
      { status := fun place => if place = [.name ['m']] then .regular else .missing
        read := fun _ => .ok (encode text) }
    let middle : Extent := { file := "m", start := 1, stop := 3 }
    let raw : Batch := { references := [{ extent := middle }] }
    let grapher : Grapher := fun _ _ _ _ => .ok raw
    let r : Registry := (({} : Registry).register "T" .codepoints grapher).1
    let unit : SourceUnit := { unitType := "T" }
    r.find? unit.unitType = some ⟨grapher, .codepoints⟩ ∧ grapher fs "" unit {} = .ok raw ∧
      fs.HoldsText (placeOf [] "m") text ∧
      ∃ batch, (r.graph fs "" unit {}).1 = .ok batch ∧
        ∃ after ∈ batch.references, middle.SameRange text after.extent := by
  intro text fs middle raw grapher r unit
  have registered : r.find? unit.unitType = some ⟨grapher, .codepoints⟩ := by
    simp [r, unit, find?, register]
  have holds : fs.HoldsText (placeOf [] "m") text := by
    refine ⟨?_, rfl, by decide⟩
    have place : placeOf [] "m" = [.name ['m']] := by decide
    simp [fs, place]
  obtain ⟨batch, graphed, _, references, _⟩ :=
    graph_is_byte_accurate r fs "" unit {} registered rfl
  have single : Multiset.Rel (ByteAccurate fs []) ({ extent := middle } ::ₘ 0)
      (batch.references : Multiset Reference) := references
  obtain ⟨after, others, accurate, _, whole⟩ := Multiset.rel_cons_left.mp single
  have member : after ∈ (batch.references : Multiset Reference) := by
    rw [whole]
    exact Multiset.mem_cons_self after others
  have covered : middle.SameRange text after.extent :=
    accurate.sameRange text (by decide) holds (by decide) (by decide)
  exact ⟨registered, rfl, holds, batch, graphed, after, Multiset.mem_coe.mp member, covered⟩

end Registry
end SymbolAtlas
