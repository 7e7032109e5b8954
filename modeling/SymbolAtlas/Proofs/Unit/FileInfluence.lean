import SymbolAtlas.Proofs.Span.FirstLook
import SymbolAtlas.Proofs.Unit.ByteAccuracy

/-! How far the files reach into an analysis. An analyzer that counts bytes aside, the
files that its spans name are looked at, and of each of them nothing matters but whether
there are bytes to index and how wide the code points are that they are decoded to. What
the characters are, what went wrong, and what lies anywhere else makes no difference to
the batch that comes out, its order included. -/
namespace SymbolAtlas
open PathName Utf8

/-- Two looks find the same kind of thing, and code points of the same widths where
there are bytes. -/
inductive Finding.Alike : Finding → Finding → Prop where
  | missing : Alike .missing .missing
  | notRegular : Alike .notRegular .notRegular
  | failed : Alike .failed .failed
  | content {first second : List UInt8}
      (sameWidths : ∀ widths, Decodes first widths ↔ Decodes second widths) :
      Alike (.content first) (.content second)

/-- Two file systems hold alike what every span of a batch names. -/
def FileSystem.AlikeFor (fs other : FileSystem) (root : List Char) (batch : Batch) : Prop :=
  ∀ e ∈ batch.extents, e.file ≠ "" →
    (fs.finding (placeOf root e.file)).Alike (other.finding (placeOf root e.file))

namespace Finding
variable {found other : Finding} {e after : Extent}

/-- Where code points begin is a matter of their widths. -/
theorem beginsAt_of_sameWidths {first second : List UInt8} {ordinal offset : UInt32}
    (sameWidths : ∀ widths, Decodes first widths ↔ Decodes second widths)
    (begins : BeginsAt first ordinal offset) : BeginsAt second ordinal offset := by
  obtain ⟨widths, decodes, inside, value⟩ := begins
  exact ⟨widths, (sameWidths widths).mp decodes, inside, value⟩

theorem beyond_of_sameWidths {first second : List UInt8} {ordinal : UInt32}
    (sameWidths : ∀ widths, Decodes first widths ↔ Decodes second widths)
    (beyond : Beyond first ordinal) : Beyond second ordinal := by
  obtain ⟨widths, decodes, outside⟩ := beyond
  exact ⟨widths, (sameWidths widths).mp decodes, outside⟩

/-- Texts whose characters are equally wide are decoded alike. -/
theorem sameWidths_of_texts {first second : List Char}
    (same : charWidths first = charWidths second) (widths : List Nat) :
    Decodes (encode first) widths ↔ Decodes (encode second) widths := by
  rw [decodes_iff, decodes_iff, ← decodes_iff.mp (decodes_encode first),
    ← decodes_iff.mp (decodes_encode second), same]

theorem Alike.settles (alike : found.Alike other) (settles : found.Settles e after) :
    other.Settles e after := by
  cases alike with
  | missing => exact settles
  | notRegular => exact settles
  | failed => exact settles
  | content sameWidths =>
    cases settles with
    | both startBegins stopBegins =>
      exact .both (beginsAt_of_sameWidths sameWidths startBegins)
        (beginsAt_of_sameWidths sameWidths stopBegins)
    | startAlone startBegins stopBeyond =>
      exact .startAlone (beginsAt_of_sameWidths sameWidths startBegins)
        (beyond_of_sameWidths sameWidths stopBeyond)
    | neither startBeyond => exact .neither (beyond_of_sameWidths sameWidths startBeyond)

/-- What is found alike settles every extent to the same. -/
theorem Alike.settle_eq {fs others : FileSystem} {place : List Component}
    (alike : (fs.finding place).Alike (others.finding place)) (e : Extent) :
    e.settle (remembered (fs.observe place)) = e.settle (remembered (others.observe place)) :=
  finding_settles_iff.mp (alike.settles (finding_settles_iff.mpr rfl))

end Finding

/-- Files that are alike for a batch convert it to the same. -/
theorem FileSystem.AlikeFor.inBytes_eq {fs other : FileSystem} {root : List Char} {batch : Batch}
    (alike : fs.AlikeFor other root batch) : batch.inBytes fs root = batch.inBytes other root := by
  refine Batch.onExtents_congr fun e inside => ?_
  unfold Extent.inBytes
  by_cases fileless : e.file = ""
  · rw [if_pos fileless, if_pos fileless]
  · rw [if_neg fileless, if_neg fileless]
    exact (alike e inside fileless).settle_eq e

namespace Registry
variable {r : Registry} {fs other : FileSystem} {root : String} {unit : SourceUnit}
  {repo : RepoConfig} {raw : Batch}

/-- The batch of an analyzer that counts bytes is only put in order. -/
theorem graph_of_bytes {grapher : Grapher}
    (registered : r.find? unit.unitType = some ⟨grapher, .bytes⟩)
    (reported : grapher fs root unit repo = .ok raw) :
    (r.graph fs root unit repo).1 = .ok raw.sorted := by
  rw [graph, registered]
  dsimp only
  rw [reported]

/-- Where an analyzer reports the same batch over two file systems, the analysis of the
unit gives the same. If the analyzer counts bytes, the two may differ in everything; if
it counts code points, in everything but what there is to index at the places that the
batch names, and how wide the code points there are. -/
theorem graph_depends_on_widths {registration : Registration}
    (registered : r.find? unit.unitType = some registration)
    (reported : registration.grapher fs root unit repo = .ok raw)
    (again : registration.grapher other root unit repo = .ok raw)
    (alike : registration.offsets = .codepoints → fs.AlikeFor other root.toList raw) :
    (r.graph fs root unit repo).1 = (r.graph other root unit repo).1 := by
  obtain ⟨grapher, offsets⟩ := registration
  cases offsets with
  | bytes => rw [graph_of_bytes registered reported, graph_of_bytes registered again]
  | codepoints =>
    have converted := (alike rfl).inBytes_eq
    rw [graph_of_codepoints registered reported, graph_of_codepoints registered again, converted]

/-- Two texts whose characters have the same widths, beside a file that no span names
and one that is missing from both. -/
theorem graph_of_other_characters :
    let files (text : List Char) (device : FileStatus) : FileSystem :=
      { status := fun place => if place = [.name ['m']] then .regular
          else if place = [.name ['d']] then device else .missing
        read := fun _ => .ok (encode text) }
    let mention (file : String) (start stop : UInt32) : Reference :=
      { extent := { file, start, stop } }
    let raw : Batch := { references := [mention "m" 2 3, mention "m" 1 2, mention "a" 1 2] }
    let grapher : Grapher := fun _ _ _ _ => .ok raw
    let r : Registry := (({} : Registry).register "T" .codepoints grapher).1
    let unit : SourceUnit := { unitType := "T" }
    let fs := files ['é', 'b', '€'] .missing
    let other := files ['ü', 'c', '한'] (.failed .linkLoop)
    r.find? unit.unitType = some ⟨grapher, .codepoints⟩ ∧ grapher fs "" unit {} = .ok raw ∧
      grapher other "" unit {} = .ok raw ∧ fs.AlikeFor other [] raw ∧
      (r.graph fs "" unit {}).1 = (r.graph other "" unit {}).1 := by
  intro files mention raw grapher r unit fs other
  have registered : r.find? unit.unitType = some ⟨grapher, .codepoints⟩ := by
    simp [r, unit, find?, register]
  have held : (fs.finding (placeOf [] "m")).Alike (other.finding (placeOf [] "m")) := by
    have place : placeOf [] "m" = [.name ['m']] := by decide
    rw [place]
    exact .content (Finding.sameWidths_of_texts rfl)
  have absent : (fs.finding (placeOf [] "a")).Alike (other.finding (placeOf [] "a")) := by
    have place : placeOf [] "a" = [.name ['a']] := by decide
    rw [place]
    exact .missing
  have alike : fs.AlikeFor other [] raw := by
    intro e inside _
    have mentions : raw.extents = [⟨"m", 2, 3⟩, ⟨"m", 1, 2⟩, ⟨"a", 1, 2⟩] := rfl
    have named : e.file = "m" ∨ e.file = "a" := by
      rw [mentions] at inside
      simp only [List.mem_cons, List.not_mem_nil, or_false] at inside
      rcases inside with rfl | rfl | rfl <;> simp
    rcases named with named | named
    · rw [named]
      exact held
    · rw [named]
      exact absent
  exact ⟨registered, rfl, rfl, alike,
    graph_depends_on_widths registered rfl rfl fun _ => alike⟩

end Registry
end SymbolAtlas
