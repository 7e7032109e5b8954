import SymbolAtlas.Proofs.Json.Slots

/-! What has been read of an object stands for the record that it would be if the object
ended there. One member more makes of this record what it makes of the record it is put
into, whether it is stored at once or kept aside, as long as its name has not come before.
From this the main statements follow: which members a record is read from, that their order
does not matter, and that those of unknown names might as well not be there. -/
namespace SymbolAtlas.Json
variable {ρ : Type}

/-! ### Members kept aside -/

section Settle
variable {fields : List (InlinedField ρ)} {seen : List String} {r : ρ}

theorem settle_unknown {name : String} (found : fields.find? (·.name = name) = none) (v : Value)
    (ms : List (String × Value)) :
    settle fields ((name, v) :: ms) seen r = settle fields ms seen r := by
  simp only [settle, found]

theorem settle_known {name : String} {field : InlinedField ρ}
    (found : fields.find? (·.name = name) = some field) (v : Value) (ms : List (String × Value)) :
    (settle fields ((name, v) :: ms) seen r).toOption =
      if name ∈ seen then none
      else (field.update (some v) r).bind fun r =>
        (settle fields ms (name :: seen) r).toOption := by
  simp only [settle, found, InlinedField.update, Option.bind_some]
  split
  · rfl
  · cases field.store r v <;> rfl

/-- The last of the members kept aside is stored last, if its name is not an earlier one. -/
theorem settle_concat (ms : List (String × Value)) (name : String) (v : Value) :
    (settle fields (ms ++ [(name, v)]) seen r).toOption =
      (settle fields ms seen r).toOption.bind fun r =>
        if name ∈ fields.map (·.name) ∧ (name ∈ seen ∨ name ∈ ms.map (·.1)) then none
        else putAside fields name (some v) r := by
  induction ms generalizing seen r with
  | nil =>
    have stored : (settle fields [] seen r).toOption = some r := rfl
    rw [List.nil_append, stored, Option.bind_some]
    cases found : fields.find? (·.name = name) with
    | none =>
      have unknown := find?_named_eq_none.mp found
      rw [settle_unknown found, putAside_unknown found, if_neg (fun both => unknown both.1)]
      rfl
    | some field =>
      have known := mem_names_of_find? found
      rw [settle_known found, putAside_known found]
      simp only [known, true_and, List.map_nil, List.not_mem_nil, or_false]
      exact congrArg _ (Option.bind_fun_some _)
  | cons m ms ih =>
    obtain ⟨other, w⟩ := m
    rw [List.cons_append]
    cases found : fields.find? (·.name = other) with
    | none =>
      have unknown := find?_named_eq_none.mp found
      rw [settle_unknown found, settle_unknown found, ih]
      congr 1
      funext r
      by_cases same : name = other
      · subst same
        rw [if_neg (fun both => unknown both.1), if_neg (fun both => unknown both.1)]
      · simp only [List.map_cons, List.mem_cons, same, false_or]
    | some field =>
      rw [settle_known found, settle_known found]
      split
      · rfl
      · simp only [Option.bind_assoc, ih, List.map_cons, List.mem_cons, or_assoc, or_left_comm]

/-- What commutes with storing any value commutes with storing all that was kept aside. -/
theorem settle_commute {change : ρ → Option ρ}
    (commute : ∀ field ∈ fields, ∀ v, Commutes (field.update v) change)
    (ms : List (String × Value)) :
    Commutes (fun r => (settle fields ms seen r).toOption) change := by
  induction ms generalizing seen with
  | nil =>
    exact commute_of_idle (.inl fun _ => rfl) change
  | cons m ms ih =>
    intro r
    obtain ⟨name, v⟩ := m
    cases found : fields.find? (·.name = name) with
    | none =>
      simp only [settle_unknown found]
      exact ih r
    | some field =>
      have one := commute field (List.mem_of_find?_eq_some found) (some v) r
      simp only [settle_known found]
      split
      · cases change r <;> rfl
      · calc ((field.update (some v) r).bind fun r =>
              (settle fields ms (name :: seen) r).toOption).bind change
            = (field.update (some v) r).bind fun r => (change r).bind fun r =>
                (settle fields ms (name :: seen) r).toOption := by
              rw [Option.bind_assoc]
              exact congrArg _ (funext ih)
          _ = (change r).bind fun r => (field.update (some v) r).bind fun r =>
                (settle fields ms (name :: seen) r).toOption := by
              rw [← Option.bind_assoc, one, Option.bind_assoc]

end Settle

namespace Shape
variable {shape : Shape ρ} {nesting : Nat} {m : RawMember} {p : Progress ρ}

/-- The record that has been read if the object ends here. -/
def ending (shape : Shape ρ) (p : Progress ρ) : Option ρ := (shape.finish p).toOption

theorem ending_eq : shape.ending p = (settle shape.aside p.aside.reverse [] p.record).toOption := by
  have nothing (ms : List (String × Value)) (seen : List String) (r : ρ) :
      settle [] ms seen r = .ok r := by
    induction ms with
    | nil => rfl
    | cons m ms ih => exact ih
  unfold ending finish aside
  cases shape.inlined with
  | none => exact congrArg Except.toOption (nothing _ _ _).symm
  | some fields =>
    rw [Option.getD_some]
    dsimp only
    cases settle fields p.aside.reverse [] p.record <;> rfl

/-- A known name that has come before. -/
def Used (shape : Shape ρ) (p : Progress ρ) (name : String) : Prop :=
  (name ∈ shape.fields.map (·.name) ∧ name ∈ p.seen) ∨
    (name ∉ shape.fields.map (·.name) ∧ name ∈ shape.aside.map (·.name) ∧ name ∈ p.aside.map (·.1))

instance (shape : Shape ρ) (p : Progress ρ) (name : String) : Decidable (shape.Used p name) :=
  inferInstanceAs (Decidable (_ ∨ _))

/-- The known ones among the names of members. -/
def known (shape : Shape ρ) (ms : List RawMember) : List String :=
  (ms.map (·.name)).filter (· ∈ shape.names)

/-- Members whose known names come once, and have not come before. -/
def Fresh (shape : Shape ρ) (p : Progress ρ) (ms : List RawMember) : Prop :=
  (shape.known ms).Nodup ∧ ∀ name ∈ shape.known ms, ¬ shape.Used p name

/-- With one member more, what has been read is the record so far with this member put into
it, unless the name of the member has come before. -/
def Puts (shape : Shape ρ) (nesting : Nat) (p : Progress ρ) (m : RawMember) : Prop :=
  (RawMember.taken shape.member nesting p m).bind shape.ending =
    if shape.Used p m.name then none else (shape.ending p).bind (shape.put nesting · m)

/-! ### One member of a field -/

section Own
variable {field : Field ρ} (own : shape.fields.find? (·.name = m.name) = some field)
include own

theorem taken_own :
    RawMember.taken shape.member nesting p m =
      if m.name ∈ p.seen then none
      else (field.update nesting m.value p.record).map fun record =>
        { p with record, seen := m.name :: p.seen } := by
  simp only [RawMember.taken, member, own, colon_append m.blankBetween]
  split
  · rfl
  · exact exactly_bind (field.read ⟨m.value.length, nesting⟩ p.record m.value) fun record =>
      { p with record, seen := m.name :: p.seen }

/-- The field is stored in a slot that does not disturb what was kept aside before. -/
theorem puts_own (independent : shape.Independent nesting) : shape.Puts nesting p m := by
  have used : shape.Used p m.name ↔ m.name ∈ p.seen := by
    simp [Used, mem_names_of_find? own]
  have commute (other : InlinedField ρ) (member : other ∈ shape.aside) (v : Option Value) :
      Commutes (other.update v) (field.update nesting m.value) := by
    have slotted := List.mem_map_of_mem (f := (·.slot nesting)) (List.mem_of_find?_eq_some own)
    have across := (List.pairwise_append.mp independent).2.2
    exact (across _ slotted _ (List.mem_map_of_mem member) _ ⟨_, rfl⟩ _ ⟨v, rfl⟩).symm
  rw [Puts, taken_own own, put_own own]
  simp only [used]
  split
  · rfl
  · rw [Option.bind_map, ending_eq]
    refine Eq.trans ?_ (settle_commute commute p.aside.reverse p.record).symm
    exact congrArg _ (funext fun record => ending_eq)

end Own

/-! ### One member more -/

section Foreign
variable (foreign : shape.fields.find? (·.name = m.name) = none)
include foreign

theorem used_foreign :
    shape.Used p m.name ↔ m.name ∈ shape.aside.map (·.name) ∧ m.name ∈ p.aside.map (·.1) := by
  simp only [Used, find?_named_eq_none.mp foreign, false_and, not_false_eq_true, true_and, false_or]

theorem taken_skipped (plain : shape.inlined = none) :
    RawMember.taken shape.member nesting p m = some p := by
  simp only [RawMember.taken, member, foreign, plain, colon_append m.blankBetween]
  exact (exactly_bind _ fun _ => p).trans (by rw [m.outlined]; rfl)

theorem taken_aside {fields : List (InlinedField ρ)} (inlined : shape.inlined = some fields) :
    RawMember.taken shape.member nesting p m =
      (valueOf nesting m.value).map fun v => { p with aside := (m.name, v) :: p.aside } := by
  simp only [RawMember.taken, member, foreign, inlined, colon_append m.blankBetween]
  exact exactly_bind (anyValue ⟨m.value.length, nesting⟩ m.value) fun v =>
    { p with aside := (m.name, v) :: p.aside }

theorem puts_skipped (plain : shape.inlined = none) : shape.Puts nesting p m := by
  rw [Puts, taken_skipped foreign plain, put_skipped foreign plain, Option.bind_some,
    if_neg (by simp [used_foreign foreign, aside_eq_nil plain])]
  exact (Option.bind_fun_some _).symm

/-- What is kept aside last is stored last. -/
theorem puts_aside {fields : List (InlinedField ρ)} (inlined : shape.inlined = some fields) :
    shape.Puts nesting p m := by
  rw [Puts, taken_aside foreign inlined, put_inlined foreign inlined, Option.bind_map]
  simp only [used_foreign foreign, aside_eq inlined]
  cases valueOf nesting m.value with
  | none =>
    have fails : putAside fields m.name none = fun _ => none := by
      cases found : fields.find? (·.name = m.name) with
      | none => exact putAside_unknown found none
      | some field => exact putAside_known found none
    rw [fails, Option.bind_fun_none, ite_self]
    rfl
  | some v =>
    rw [Option.bind_some, Function.comp_apply, ending_eq, ending_eq, aside_eq inlined,
      List.reverse_cons, settle_concat]
    simp only [List.map_reverse, List.mem_reverse, List.not_mem_nil, false_or]
    split
    · exact Option.bind_fun_none _
    · rfl

end Foreign

/-- So it is for every member. -/
theorem puts (independent : shape.Independent nesting) : shape.Puts nesting p m := by
  cases own : shape.fields.find? (·.name = m.name) with
  | some field => exact puts_own own independent
  | none =>
    cases inlined : shape.inlined with
    | none => exact puts_skipped own inlined
    | some fields => exact puts_aside own inlined

/-- A known name is used up by the member that has it, and no other name is. -/
theorem used_taken {next : Progress ρ}
    (taken : RawMember.taken shape.member nesting p m = some next) (name : String) :
    shape.Used next name ↔ shape.Used p name ∨ (name = m.name ∧ name ∈ shape.names) := by
  cases own : shape.fields.find? (·.name = m.name) with
  | some field =>
    have named := mem_names_of_find? own
    rw [taken_own own] at taken
    split at taken
    · contradiction
    obtain ⟨record, -, rfl⟩ := Option.map_eq_some_iff.mp taken
    simp only [Used, names, List.mem_cons, List.mem_append]
    by_cases same : name = m.name
    · subst same; simp [named]
    · simp [same]
  | none =>
    have foreign := find?_named_eq_none.mp own
    cases inlined : shape.inlined with
    | none =>
      have nothing := aside_eq_nil inlined
      rw [taken_skipped own inlined] at taken
      cases taken
      refine ⟨.inl, fun either => either.resolve_right ?_⟩
      rintro ⟨rfl, known⟩
      rw [names, nothing] at known
      exact foreign (by simpa using known)
    | some fields =>
      rw [taken_aside own inlined] at taken
      obtain ⟨v, -, rfl⟩ := Option.map_eq_some_iff.mp taken
      simp only [Used, names, List.map_cons, List.mem_cons, List.mem_append]
      by_cases same : name = m.name
      · subst same
        simp only [foreign, not_false_eq_true, true_or, and_true, true_and, false_and, false_or]
        exact ⟨.inr, fun either => either.elim And.left id⟩
      · simp [same]

/-! ### All members -/

theorem names_of_used {name : String} (used : shape.Used p name) : name ∈ shape.names := by
  rcases used with ⟨own, -⟩ | ⟨-, inlined, -⟩
  · exact List.mem_append_left _ own
  · exact List.mem_append_right _ inlined

theorem mem_known {ms : List RawMember} {name : String} :
    name ∈ shape.known ms ↔ name ∈ ms.map (·.name) ∧ name ∈ shape.names := by
  simp [known]

theorem known_append (ms others : List RawMember) :
    shape.known (ms ++ others) = shape.known ms ++ shape.known others := by
  simp [known]

/-- Where no known name comes twice, there is one member of each. -/
theorem eq_of_known {ms : List RawMember} (distinct : (shape.known ms).Nodup) {m n : RawMember}
    (one : m ∈ ms) (two : n ∈ ms) (named : m.name ∈ shape.names) (same : m.name = n.name) :
    m = n := by
  have namedToo : n.name ∈ shape.names := same ▸ named
  rw [known, List.filter_map] at distinct
  refine List.inj_on_of_nodup_map distinct ?_ ?_ same
  · exact List.mem_filter.mpr ⟨one, decide_eq_true named⟩
  · exact List.mem_filter.mpr ⟨two, decide_eq_true namedToo⟩

theorem fresh_cons {ms : List RawMember} {next : Progress ρ}
    (taken : RawMember.taken shape.member nesting p m = some next) :
    shape.Fresh p (m :: ms) ↔ ¬ shape.Used p m.name ∧ shape.Fresh next ms := by
  simp only [Fresh, used_taken taken, not_or, not_and]
  by_cases named : m.name ∈ shape.names
  · have split : shape.known (m :: ms) = m.name :: shape.known ms := by simp [known, named]
    rw [split, List.nodup_cons, List.forall_mem_cons]
    constructor
    · rintro ⟨⟨once, distinct⟩, unused, others⟩
      refine ⟨unused, distinct, fun name member => ⟨others name member, ?_⟩⟩
      rintro rfl
      exact absurd member once
    · rintro ⟨unused, distinct, others⟩
      refine ⟨⟨fun member => ?_, distinct⟩, unused, fun name member => (others name member).1⟩
      exact (others m.name member).2 rfl named
  · have split : shape.known (m :: ms) = shape.known ms := by simp [known, named]
    rw [split]
    constructor
    · rintro ⟨distinct, others⟩
      refine ⟨mt names_of_used named, distinct, fun name member => ⟨others name member, ?_⟩⟩
      rintro rfl
      exact named
    · rintro ⟨-, distinct, others⟩
      exact ⟨distinct, fun name member => (others name member).1⟩

/-- A run over members that ends in a record puts each of them into it in turn. -/
theorem run_iff (independent : shape.Independent nesting) (ms : List RawMember) (r : ρ) :
    (∃ q, ms.foldlM (RawMember.taken shape.member nesting) p = some q ∧ shape.ending q = some r) ↔
      shape.Fresh p ms ∧ (shape.ending p).bind (ms.foldlM (shape.put nesting)) = some r := by
  -- The record so far carries the induction; what is kept aside for later is hidden in it.
  induction ms generalizing p with
  | nil =>
    have fresh : shape.Fresh p [] := ⟨List.nodup_nil, List.forall_mem_nil _⟩
    simp [fresh]
  | cons m ms ih =>
    have step : shape.Puts nesting p m := puts independent
    have puts : (shape.ending p).bind ((m :: ms).foldlM (shape.put nesting)) =
        ((shape.ending p).bind (shape.put nesting · m)).bind (ms.foldlM (shape.put nesting)) :=
      (Option.bind_assoc _ _ _).symm
    rw [puts, List.foldlM_cons]
    cases taken : RawMember.taken shape.member nesting p m with
    | none =>
      rw [Puts, taken] at step
      refine ⟨fun ⟨_, failed, _⟩ => (nomatch failed), fun ⟨fresh, put⟩ => ?_⟩
      have unused : ¬ shape.Used p m.name := fun used =>
        fresh.2 m.name (mem_known.mpr ⟨List.mem_cons_self, names_of_used used⟩) used
      rw [if_neg unused] at step
      rw [← step] at put
      contradiction
    | some next =>
      rw [Puts, taken, Option.bind_some] at step
      rw [fresh_cons taken]
      refine ih.trans ?_
      by_cases used : shape.Used p m.name
      · rw [step, if_pos used]
        simp [used]
      · rw [step, if_neg used]
        simp [used]

end Shape

/-! ### Whole texts -/

namespace Shape
variable {shape : Shape ρ} (settled : shape.FieldsSettled)
  (independent : shape.Independent (maxNesting - 1)) {o : ObjectText} {r : ρ}
include settled independent

/-- A record is read from an object if no known name comes twice, and each member can be
put into it. -/
theorem ofText_text_iff_put :
    shape.ofText o.text = .ok r ↔ (shape.known o.members).Nodup ∧
      o.members.foldlM (shape.put (maxNesting - 1)) shape.default = some r := by
  have ends (p : Progress ρ) (r : ρ) : shape.finish p = .ok r ↔ shape.ending p = some r := by
    unfold ending
    cases shape.finish p <;> simp [Except.toOption]
  have fresh : shape.Fresh { record := shape.default } o.members ↔
      (shape.known o.members).Nodup := by
    simp [Fresh, Used]
  have start : shape.ending { record := shape.default } = some shape.default := by
    rw [ending_eq]
    rfl
  rw [ofText_text_iff settled]
  simp only [ends]
  rw [run_iff independent, fresh, start, Option.bind_some]

/-- Members may be moved about, and others of unknown names put between them. -/
theorem ofText_rearranged (accepted : shape.ofText o.text = .ok r) {extra members : List RawMember}
    (unknown : ∀ m ∈ extra, m.name ∉ shape.names)
    (readable : ∀ m ∈ extra, m.Readable (maxNesting - 1))
    (perm : members.Perm (o.members ++ extra)) :
    shape.ofText ({ o with members } : ObjectText).text = .ok r := by
  obtain ⟨distinct, folded⟩ := (ofText_text_iff_put settled independent).mp accepted
  have names : (shape.known members).Perm (shape.known o.members) := by
    have others : shape.known extra = [] := by simpa [known] using unknown
    have moved : (shape.known members).Perm (shape.known (o.members ++ extra)) :=
      (perm.map _).filter _
    rwa [known_append, others, List.append_nil] at moved
  have distinct : (shape.known members).Nodup := names.nodup_iff.mpr distinct
  have commute : ∀ m ∈ members, ∀ n ∈ members,
      Commutes (shape.put (maxNesting - 1) · m) (shape.put (maxNesting - 1) · n) := by
    intro m one n two
    by_cases same : m = n
    · subst same; exact fun r => rfl
    · exact put_commute independent fun named again =>
        same (eq_of_known distinct one two named again)
  have idle : extra.foldlM (shape.put (maxNesting - 1)) r = some r :=
    foldlM_idle fun m member => put_readable (unknown m member) (readable m member)
  refine (ofText_text_iff_put settled independent).mpr ⟨distinct, ?_⟩
  rw [foldlM_perm perm commute, List.foldlM_append, folded]
  exact idle

/-- A known name does not come twice. -/
theorem ofText_repeated {name : String} (known : name ∈ shape.names)
    (repeated : 2 ≤ (o.members.map (·.name)).count name) : shape.ofText o.text ≠ .ok r := by
  intro accepted
  obtain ⟨distinct, -⟩ := (ofText_text_iff_put settled independent).mp accepted
  have once := List.nodup_iff_count_le_one.mp distinct name
  rw [Shape.known, List.count_filter (by simpa using known)] at once
  omega

end Shape

end SymbolAtlas.Json
