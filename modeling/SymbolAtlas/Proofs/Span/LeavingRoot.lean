import Mathlib.Data.List.Infix
import SymbolAtlas.Proofs.Files.UnderRoot
import SymbolAtlas.Proofs.Span.Trace

/-! A pass looks for every file under its root, and it takes the names of files as they
come: it asks for the root with the steps of the name behind it, and nothing holds these
back. So a pass stays inside its root, as far as the text of a path can tell, exactly as
long as no span names a file whose first steps lead up more often than down. A slash in
front of the name changes nothing about that. -/
namespace SymbolAtlas
open PathName

theorem placeOf_eq (root : List Char) (file : String) :
    placeOf root file = components root ++ trail root file.toList :=
  components_resolve root file.toList

namespace Pass

section Asked
variable (root : List Char) (config : ConversionConfig) (feeds : List Feed)

/-- A run asks for the places of its extents and for nothing else. -/
theorem asked_iff (place : List Component) :
    .asksStatus place ∈ (({ root, config } : Pass).run feeds).1.trace ↔
      ∃ m ∈ moments feeds, m.extent.LiesAt root place := by
  rw [← mem_firstPlaces_iff, ← run_asked root config feeds, List.mem_filterMap]
  constructor
  · exact fun asked => ⟨_, asked, rfl⟩
  · rintro ⟨act, done, same⟩
    cases act with
    | asksStatus other => cases same; exact done
    | reads other => cases same
    | logs event => cases same

/-- It reads nothing that it has not asked for. -/
theorem asked_of_read {place : List Component}
    (read : .reads place ∈ (({ root, config } : Pass).run feeds).1.trace) :
    .asksStatus place ∈ (({ root, config } : Pass).run feeds).1.trace := by
  rw [asked_iff, ← mem_firstPlaces_iff]
  exact (run_read root config feeds).subset (List.mem_filterMap.mpr ⟨_, read, rfl⟩)

end Asked

/-- The places that a run asks for are the root, followed by the way to one of its
files, and it reads no others. It leaves the root, by the text of a path, exactly if
it comes to a file whose name leads up more often than down somewhere on its way. -/
theorem run_leaves_root_iff (root : List Char) (config : ConversionConfig) (feeds : List Feed) :
    let trace := (({ root, config } : Pass).run feeds).1.trace
    (∀ place, .asksStatus place ∈ trace ↔ ∃ m ∈ moments feeds, m.extent.file ≠ "" ∧
      place = components root ++ trail root m.extent.file.toList) ∧
    (∀ place, .reads place ∈ trace → .asksStatus place ∈ trace) ∧
    ((∃ path, .asksStatus (components root ++ path) ∈ trace ∧ Escapes path) ↔
      ∃ m ∈ moments feeds, Escapes (steps m.extent.file.toList)) := by
  intro trace
  have asked (place : List Component) :
      .asksStatus place ∈ trace ↔ ∃ m ∈ moments feeds, m.extent.file ≠ "" ∧
        place = components root ++ trail root m.extent.file.toList := by
    rw [asked_iff]
    simp only [Extent.LiesAt, placeOf_eq, eq_comm]
  refine ⟨asked, fun place => asked_of_read root config feeds, ?_, ?_⟩
  · rintro ⟨path, done, escapes⟩
    obtain ⟨m, member, _, same⟩ := (asked _).mp done
    obtain rfl := List.append_cancel_left same
    exact ⟨m, member, (escapes_trail_iff root _).mp escapes⟩
  · rintro ⟨m, member, escapes⟩
    have named : m.extent.file ≠ "" := by
      intro fileless
      rw [fileless] at escapes
      obtain ⟨first, begins, exceeds⟩ := escapes
      obtain rfl := List.prefix_nil.mp begins
      cases exceeds
    exact ⟨_, (asked _).mpr ⟨m, member, named, rfl⟩, (escapes_trail_iff root _).mpr escapes⟩

/-- A name that leads up no more often than down keeps a run in its root. -/
theorem run_keeps_to_root :
    let fs : FileSystem := { status := fun _ => .missing, read := fun _ => .ok [] }
    let batch : Batch := { references := [{ extent := { file := "/a/./../b" } }] }
    ∀ path, .asksStatus (components ['r'] ++ path) ∈
        (({ root := ['r'] } : Pass).run [⟨fs, batch⟩]).1.trace →
      ¬ Escapes path := by
  intro fs batch path asked escapes
  obtain ⟨_, _, leaves⟩ := run_leaves_root_iff ['r'] {} [⟨fs, batch⟩]
  obtain ⟨m, member, first, begins, exceeds⟩ := leaves.mp ⟨path, asked, escapes⟩
  obtain rfl : m = ⟨fs, { file := "/a/./../b" }⟩ := List.mem_singleton.mp member
  have kept : ∀ first ∈ (steps "/a/./../b".toList).inits,
      ¬ first.countP Component.isName < first.count .parent := by decide
  exact kept first ((List.mem_inits _ _).mpr begins) exceeds

/-- A name with a slash in front, which is looked for under the root, leads to a file
beside it. -/
theorem absolute_name_leaves_root :
    let fs : FileSystem :=
      { status := fun place =>
          if place = [.name ['r'], .parent, .name ['x']] then .regular else .missing
        read := fun _ => .ok (Utf8.encode ['é']) }
    let batch : Batch := { references := [{ extent := { file := "/../x", stop := 1 } }] }
    (({ root := ['r'] } : Pass).run [⟨fs, batch⟩]).1.trace =
        [.asksStatus [.name ['r'], .parent, .name ['x']],
          .reads [.name ['r'], .parent, .name ['x']], .logs (.indexed "r/../x" 1 2)] ∧
      ¬ ∀ root file, ∃ path, components (resolve root file) = components root ++ path ∧
        ¬ Escapes path := by
  refine ⟨rfl, fun inside => ?_⟩
  obtain ⟨path, same, kept⟩ := inside ['r'] "/../x".toList
  have place : components (resolve ['r'] "/../x".toList) =
      components ['r'] ++ [.parent, .name ['x']] := by decide
  obtain rfl := List.append_cancel_left (place.symm.trans same)
  exact kept ⟨[.parent], ⟨[.name ['x']], rfl⟩, by decide⟩

end Pass
end SymbolAtlas
