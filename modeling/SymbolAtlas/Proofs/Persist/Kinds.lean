import SymbolAtlas.Proofs.Persist.Fields

/-! Each kind of record is read back from its members, wherever its text may stand.
The members are followed in the order in which they are written; the record that is
reached at the end is the one that was written. -/
namespace SymbolAtlas
open Json Persist

/-! ### Keys -/

theorem key_reads (k : SymbolKey) : Reads Persisted.read (Persisted.toValue k) k := by
  have reached := (Persisted.shape (ρ := SymbolKey)).reached_nil
  have reached := reached.unlessEmpty "Repo" k.repo rfl rfl
  have reached := reached.always "UnitType" k.unitType rfl
  have reached := reached.always "Unit" k.unit rfl
  have reached := reached.always "Path" k.path rfl
  exact reached.reads (by decide) fun p same _ => congrArg Except.ok same

/-- The names of the fields of a key. -/
def keyNames : List String := ["Repo", "UnitType", "Unit", "Path"]

/-- What holds of members with such names, whatever their texts, holds of all members
of a key. -/
theorem forall_mem_members_key {P : String × Value → Prop} (k : SymbolKey)
    (holds : ∀ name ∈ keyNames, ∀ s, P (name, .string s)) : ∀ m ∈ Persisted.members k, P m := by
  have repo : ∀ m ∈ unlessEmpty "Repo" k.repo, P m := by
    unfold unlessEmpty
    split
    · exact List.forall_mem_nil _
    · exact List.forall_mem_singleton.mpr (holds _ (by decide) _)
  intro m member
  simp only [Persisted.members, always, List.mem_append, List.mem_singleton] at member
  rcases member with ((member | rfl) | rfl) | rfl
  · exact repo m member
  · exact holds _ (by decide) _
  · exact holds _ (by decide) _
  · exact holds _ (by decide) _

/-- The members of a key settle it in a record that has none yet. -/
theorem settle_key {ρ : Type} {update : ρ → (SymbolKey → SymbolKey) → ρ} {r : ρ}
    (unset : update r ({ · with repo := "" }) = r) (k : SymbolKey) :
    settle (inlinedKey update) (Persisted.members k) [] r =
      .ok (update (update (update (update r ({ · with repo := k.repo }))
        ({ · with unitType := k.unitType })) ({ · with unit := k.unit }))
        ({ · with path := k.path })) := by
  by_cases repo : k.repo = ""
  · simp only [Persisted.members, unlessEmpty, repo, if_true, unset]
    rfl
  · simp only [Persisted.members, unlessEmpty, if_neg repo]
    rfl

/-- A record that takes in a key starts with the members of the key, and they are put
aside. -/
theorem reached_key {ρ : Type} (shape : Shape ρ) (inlined : shape.inlined.isSome = true)
    (foreign : ∀ name ∈ keyNames, shape.fields.find? (·.name = name) = none) (k : SymbolKey) :
    shape.Reached (Persisted.members k) [] shape.default (Persisted.members k).reverse := by
  have reached := shape.reached_nil.putAside inlined
    (forall_mem_members_key k fun name known _ => foreign name known)
    (forall_mem_members_key k fun _ _ s => anyValue_reads (.string s) (.string s))
  rwa [List.nil_append, List.append_nil] at reached

/-- The key is settled when the object is complete. -/
theorem finish_key {ρ : Type} {shape : Shape ρ} {update : ρ → (SymbolKey → SymbolKey) → ρ}
    (inlined : shape.inlined = some (inlinedKey update)) {p : Progress ρ}
    (unset : update p.record ({ · with repo := "" }) = p.record) {k : SymbolKey}
    (put : p.aside = (Persisted.members k).reverse) :
    shape.finish p = .ok (update (update (update (update p.record ({ · with repo := k.repo }))
        ({ · with unitType := k.unitType })) ({ · with unit := k.unit }))
        ({ · with path := k.path })) := by
  simp only [Shape.finish, inlined, put, List.reverse_reverse, settle_key unset]

/-! ### Spans -/

theorem definition_reads {d : Definition} (valid : d.data.Valid) (integral : d.data.Integral) :
    Reads Persisted.read (Persisted.toValue d) d := by
  have reached := reached_key (Persisted.shape (ρ := Definition)) rfl (by decide) d.key
  have reached := reached.always "Name" d.name rfl
  have reached := reached.unlessEmpty "Kind" d.kind rfl rfl
  have reached := reached.unlessEmpty "File" d.extent.file rfl rfl
  have reached := reached.unlessZero "DefStart" d.extent.start rfl rfl
  have reached := reached.unlessZero "DefEnd" d.extent.stop rfl rfl
  have reached := reached.ifSet "Exported" d.exported rfl rfl
  have reached := reached.unlessNull "Data" valid integral rfl rfl
  refine reached.reads (by decide) fun p same put => ?_
  rw [finish_key rfl (by rw [same]; rfl) put, same]

theorem reference_reads (r : Reference) : Reads Persisted.read (Persisted.toValue r) r := by
  have reached := (Persisted.shape (ρ := Reference)).reached_nil
  have reached := reached.unlessEmpty "DefRepo" r.target.repo rfl rfl
  have reached := reached.always "DefUnitType" r.target.unitType rfl
  have reached := reached.always "DefUnit" r.target.unit rfl
  have reached := reached.always "DefPath" r.target.path rfl
  have reached := reached.ifSet "Def" r.isDefinition rfl rfl
  have reached := reached.unlessEmpty "Repo" r.repo rfl rfl
  have reached := reached.always "UnitType" r.unitType rfl
  have reached := reached.always "Unit" r.unit rfl
  have reached := reached.always "File" r.extent.file rfl
  have reached := reached.unlessZero "Start" r.extent.start rfl rfl
  have reached := reached.unlessZero "End" r.extent.stop rfl rfl
  exact reached.reads (by decide) fun p same _ => congrArg Except.ok same

theorem documentation_reads (d : Documentation) :
    Reads Persisted.read (Persisted.toValue d) d := by
  have reached := reached_key (Persisted.shape (ρ := Documentation)) rfl (by decide) d.key
  have reached := reached.always "Format" d.format rfl
  have reached := reached.always "Data" d.text rfl
  have reached := reached.unlessEmpty "File" d.extent.file rfl rfl
  have reached := reached.unlessZero "Start" d.extent.start rfl rfl
  have reached := reached.unlessZero "End" d.extent.stop rfl rfl
  refine reached.reads (by decide) fun p same put => ?_
  rw [finish_key rfl (by rw [same]; rfl) put, same]

theorem batch_reads {b : Batch}
    (held : ∀ d ∈ b.definitions, d.data.Valid ∧ d.data.Integral) :
    Reads Persisted.read (Persisted.toValue b) b := by
  have reached := (Persisted.shape (ρ := Batch)).reached_nil
  have reached := reached.unlessNone "Defs"
    (fun d member => definition_reads (held d member).1 (held d member).2) rfl rfl
  have reached := reached.unlessNone "Refs" (fun r (_ : r ∈ b.references) => reference_reads r)
    rfl rfl
  have reached := reached.unlessNone "Docs"
    (fun d (_ : d ∈ b.documentation) => documentation_reads d) rfl rfl
  exact reached.reads (by decide) fun p same _ => congrArg Except.ok same

/-! ### Settings and units -/

theorem conversionConfig_reads (c : ConversionConfig) :
    Reads Persisted.read (Persisted.toValue c) c := by
  have reached := (Persisted.shape (ρ := ConversionConfig)).reached_nil
  have reached := reached.field "warn_missing_files" (boolean_reads c.warnMissingFiles) rfl
  exact reached.reads (by decide) fun p same _ => congrArg Except.ok same

theorem normalizationConfig_reads (c : NormalizationConfig) :
    Reads Persisted.read (Persisted.toValue c) c := by
  have reached := (Persisted.shape (ρ := NormalizationConfig)).reached_nil
  have reached := reached.field "canonicalize_def_repos" (boolean_reads c.canonicalizeRepos) rfl
  exact reached.reads (by decide) fun p same _ => congrArg Except.ok same

theorem sourceUnit_reads (u : SourceUnit) : Reads Persisted.read (Persisted.toValue u) u := by
  have reached := (Persisted.shape (ρ := SourceUnit)).reached_nil
  have reached := reached.always "Name" u.name rfl
  have reached := reached.always "Type" u.unitType rfl
  have reached := reached.always "Dir" u.dir rfl
  have reached := reached.field "Files"
    (list_reads fun file (_ : file ∈ u.files) => string_reads file) rfl
  exact reached.reads (by decide) fun p same _ => congrArg Except.ok same

theorem repoConfig_reads (c : RepoConfig) : Reads Persisted.read (Persisted.toValue c) c := by
  have reached := (Persisted.shape (ρ := RepoConfig)).reached_nil
  have reached := reached.always "URI" c.uri rfl
  have reached := reached.always "CloneURL" c.cloneUrl rfl
  have reached := reached.always "CommitID" c.commitId rfl
  exact reached.reads (by decide) fun p same _ => congrArg Except.ok same

end SymbolAtlas
