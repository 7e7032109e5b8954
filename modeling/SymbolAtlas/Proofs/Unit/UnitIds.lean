import SymbolAtlas.Proofs.Text.Separation
import SymbolAtlas.Unit.SourceUnit

/-! The id of a source unit is its name and its type with one character between them,
and either may hold that character too. So an id does not always tell units apart: the
name of one may reach over the separator into the type of the other, and the bare name
of one may be the id of the other. Names without the separator rule both out. -/
namespace SymbolAtlas.SourceUnit

/-- Units that are one by what identifies a unit. -/
def Alike (u v : SourceUnit) : Prop := u.name = v.name ∧ u.unitType = v.unitType

/-- The name of the first unit reaches over a separator into the type of the second. -/
def Overlaps (u v : SourceUnit) : Prop :=
  ∃ middle : String, u.name = v.name ++ "@" ++ middle ∧ v.unitType = middle ++ "@" ++ u.unitType

variable {u v : SourceUnit}

theorem id_toList (u : SourceUnit) : u.id.toList = u.name.toList ++ '@' :: u.unitType.toList := by
  simp [id]

theorem overlaps_iff : u.Overlaps v ↔ ∃ middle, u.name.toList = v.name.toList ++ '@' :: middle ∧
    v.unitType.toList = middle ++ '@' :: u.unitType.toList := by
  constructor
  · rintro ⟨middle, name, unitType⟩
    exact ⟨middle.toList, by simp [name], by simp [unitType]⟩
  · rintro ⟨middle, name, unitType⟩
    refine ⟨String.ofList middle, String.toList_inj.mp ?_, String.toList_inj.mp ?_⟩
    · simp [name]
    · simp [unitType]

/-- One id is the id of two units exactly if they overlap. -/
theorem id_eq_iff : u.id = v.id ↔ u.Alike v ∨ u.Overlaps v ∨ v.Overlaps u := by
  rw [← String.toList_inj, id_toList, id_toList, Text.append_sep_eq_iff, String.toList_inj,
    String.toList_inj, overlaps_iff, overlaps_iff, Alike]

/-- A single selector selects the unit whose id or whose bare name it is. -/
theorem isSelected_singleton (selector : String) :
    (v.isSelected [selector]).1 = true ↔ selector = v.id ∨ selector = v.name := by
  simp [isSelected, apply_ite Prod.fst]

theorem not_overlaps_of_plain (plain : '@' ∉ u.name.toList) : ¬ u.Overlaps v := by
  intro overlaps
  obtain ⟨middle, name, _⟩ := overlaps_iff.mp overlaps
  rw [name] at plain
  exact plain (List.mem_append_right _ List.mem_cons_self)

theorem id_ne_name_of_plain (plain : '@' ∉ v.name.toList) : u.id ≠ v.name := by
  intro same
  rw [← same, id_toList] at plain
  exact plain (List.mem_append_right _ List.mem_cons_self)

/-- When two units have one id, and when the id of one of them selects the other: units
that differ need a separator in a name for either. -/
theorem selected_by_id_iff (u v : SourceUnit) :
    (u.id = v.id ↔ u.Alike v ∨ u.Overlaps v ∨ v.Overlaps u) ∧
    ((v.isSelected [u.id]).1 = true ↔
      (u.Alike v ∨ u.Overlaps v ∨ v.Overlaps u) ∨ u.id = v.name) ∧
    ('@' ∉ u.name.toList → '@' ∉ v.name.toList →
      (u.id = v.id ↔ u.Alike v) ∧ ((v.isSelected [u.id]).1 = true ↔ u.Alike v)) := by
  have selected := isSelected_singleton (v := v) u.id
  rw [id_eq_iff] at selected
  refine ⟨id_eq_iff, selected, fun plain otherPlain => ?_⟩
  have apart : ¬ (u.Overlaps v ∨ v.Overlaps u) :=
    not_or.mpr ⟨not_overlaps_of_plain plain, not_overlaps_of_plain otherPlain⟩
  rw [selected, id_eq_iff, or_iff_left (id_ne_name_of_plain otherPlain), or_iff_left apart]
  exact ⟨Iff.rfl, Iff.rfl⟩

/-- Types may hold the separator. -/
theorem plain_names_are_identified :
    let u : SourceUnit := { name := "a", unitType := "b@c" }
    let v : SourceUnit := { name := "b", unitType := "b@c" }
    u.id ≠ v.id ∧ (v.isSelected [u.id]).1 = false := by
  intro u v
  have apart : ¬ u.Alike v := fun alike => absurd alike.1 (by decide)
  obtain ⟨ids, selected⟩ := (selected_by_id_iff u v).2.2 (by decide) (by decide)
  exact ⟨fun same => apart (ids.mp same), Bool.eq_false_iff.mpr fun on => apart (selected.mp on)⟩

/-- Two units with one id: a selector that is meant for the first selects the second. -/
theorem units_share_an_id :
    let u : SourceUnit := { name := "a", unitType := "b@c" }
    let v : SourceUnit := { name := "a@b", unitType := "c" }
    u.id = "a@b@c" ∧ v.id = "a@b@c" ∧ (v.isSelected [u.id]).1 = true ∧
      ¬ ∀ u v : SourceUnit, u.name ≠ v.name ∨ u.unitType ≠ v.unitType →
        u.id ≠ v.id ∧ (v.isSelected [u.id]).1 = false := by
  intro u v
  have same : u.id = v.id := rfl
  have selected : (v.isSelected [u.id]).1 = true := by decide
  exact ⟨rfl, rfl, selected, fun identified =>
    (identified u v (.inl (by decide))).1 same⟩

end SymbolAtlas.SourceUnit
