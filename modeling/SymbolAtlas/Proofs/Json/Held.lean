import SymbolAtlas.Json.Record
import SymbolAtlas.Proofs.Json.Values

/-! Whatever text a value is read from, it is a value that can be held, and its
brackets are within those that could be opened. The loops carry any property along
that a single part keeps; so do the fields of a record, in whatever form and order
they come. -/
namespace SymbolAtlas.Json

/-! ### Loops -/

theorem bind_eq_ok {ε α β : Type} {x : Except ε α} {f : α → Except ε β} {b : β}
    (done : x >>= f = .ok b) : ∃ a, x = .ok a ∧ f a = .ok b := by
  cases x with
  | error => contradiction
  | ok a => exact ⟨a, rfl, done⟩

section Loops
variable {σ : Type} {P : σ → Prop}

/-- What every item keeps is kept by the whole array. -/
theorem items_keep {item : σ → Reader σ}
    (keeps : ∀ {state text next rest}, P state → item state text = .ok (next, rest) → P next)
    {steps : Nat} {first : Bool} {state final : σ} {text rest : List Char} (start : P state)
    (read : items item steps first state text = .ok (final, rest)) : P final := by
  induction steps generalizing first state text with
  | zero => contradiction
  | succ steps ih =>
    rw [items] at read
    split at read
    · contradiction
    · cases read; exact start
    split at read
    · obtain ⟨⟨next, left⟩, one, more⟩ := bind_eq_ok read
      exact ih (keeps start one) more
    split at read
    · split at read
      · contradiction
      · contradiction
      · obtain ⟨⟨next, left⟩, one, more⟩ := bind_eq_ok read
        exact ih (keeps start one) more
    · contradiction

/-- What every member keeps is kept by the whole object. -/
theorem members_keep {member : σ → String → Reader σ}
    (keeps : ∀ {state name text next rest}, P state → member state name text = .ok (next, rest) →
      P next)
    {steps : Nat} {first : Bool} {state final : σ} {text rest : List Char} (start : P state)
    (read : members member steps first state text = .ok (final, rest)) : P final := by
  induction steps generalizing first state text with
  | zero => contradiction
  | succ steps ih =>
    -- After the first member and after every comma it goes on in the same way.
    have named {text : List Char}
        (read : (stringBody (steps + 1) [] text >>= fun name =>
          member state name.1 name.2 >>= fun next =>
            members member steps false next.1 next.2) = .ok (final, rest)) : P final := by
      obtain ⟨⟨name, left⟩, _, read⟩ := bind_eq_ok read
      obtain ⟨⟨next, left⟩, one, more⟩ := bind_eq_ok read
      exact ih (keeps start one) more
    rw [members] at read
    split at read
    · contradiction
    · cases read; exact start
    split at read
    · split at read
      · exact named read
      · contradiction
    split at read
    · split at read
      · contradiction
      · exact named read
      · contradiction
    · contradiction

end Loops

/-! ### Values -/

/-- A value that can be held, with at most `n` brackets open at once. -/
structure Value.Held (n : Nat) (v : Value) : Prop where
  valid : v.Valid
  opens : v.nesting ≤ n

theorem Value.Held.mono {m n : Nat} {v : Value} (held : v.Held m) (fewer : m ≤ n) : v.Held n :=
  ⟨held.valid, Nat.le_trans held.opens fewer⟩

theorem Value.Held.array {n : Nat} {vs : List Value} (items : ∀ v ∈ vs, v.Held n) :
    (Value.array vs).Held (n + 1) := by
  have opens : itemsNesting vs ≤ n :=
    itemsNesting_le_iff.mpr fun v member => (items v member).opens
  exact ⟨.array fun v member => (items v member).valid, Nat.succ_le_succ opens⟩

theorem Value.Held.object {n : Nat} {ms : List (String × Value)} (ordered : InOrder ms)
    (members : ∀ m ∈ ms, m.2.Held n) : (Value.object ms).Held (n + 1) := by
  have opens : membersNesting ms ≤ n :=
    membersNesting_le_iff.mpr fun m member => (members m member).opens
  exact ⟨.object ordered fun m member => (members m member).valid, Nat.succ_le_succ opens⟩

theorem mem_insertMember {name : String} {v : Value} {m : String × Value}
    {held : List (String × Value)} (member : m ∈ insertMember name v held) :
    m = (name, v) ∨ m ∈ held := by
  induction held with
  | nil => exact .inl (List.mem_singleton.mp member)
  | cons other held ih =>
    rw [insertMember] at member
    split at member
    · exact List.mem_cons.mp member
    · exact (List.mem_cons.mp member).imp_right (List.mem_cons_of_mem _)
    · rcases List.mem_cons.mp member with rfl | member
      · exact .inr List.mem_cons_self
      · exact (ih member).imp_right (List.mem_cons_of_mem _)

/-- Members stay in the order of their names. -/
theorem insertMember_inOrder {name : String} {held : List (String × Value)}
    (ordered : InOrder held) (v : Value) : InOrder (insertMember name v held) := by
  induction held with
  | nil => exact List.pairwise_singleton ..
  | cons other held ih =>
    obtain ⟨least, later⟩ := List.pairwise_cons.mp ordered
    rw [insertMember]
    split
    · rename_i before
      refine List.pairwise_cons.mpr ⟨fun m member => ?_, ordered⟩
      rcases List.mem_cons.mp member with rfl | member
      · exact before
      · exact Std.TransCmp.lt_trans before (least m member)
    · rename_i same
      rw [Std.LawfulEqCmp.eq_of_compare same]
      exact List.pairwise_cons.mpr ⟨least, later⟩
    · rename_i after
      refine List.pairwise_cons.mpr ⟨fun m member => ?_, ih later⟩
      rcases mem_insertMember member with rfl | member
      · exact Std.OrientedCmp.gt_iff_lt.mp after
      · exact least m member

/-- What holds of every part that is read holds of all that are gathered. -/
theorem gather_forall {α : Type} {read : Reader α} {P : α → Prop}
    (holds : ∀ {text a rest}, read text = .ok (a, rest) → P a) {steps : Nat} {first : Bool}
    {text rest : List Char} {done : List α}
    (parts : items (gather read) steps first [] text = .ok (done, rest)) : ∀ a ∈ done, P a := by
  refine items_keep (P := fun done => ∀ a ∈ done, P a) ?_ (List.forall_mem_nil _) parts
  intro done text next rest before one
  obtain ⟨⟨a, left⟩, part, one⟩ := bind_eq_ok one
  cases one
  exact List.forall_mem_cons.mpr ⟨holds part, before⟩

/-- Members that are put in their places are in the order of their names, and what
holds of every value that is read holds of all of theirs. -/
theorem keep_forall {read : Reader Value} {P : Value → Prop}
    (holds : ∀ {text v rest}, read text = .ok (v, rest) → P v) {steps : Nat} {first : Bool}
    {text rest : List Char} {done : List (String × Value)}
    (parts : members (keep read) steps first [] text = .ok (done, rest)) :
    InOrder done ∧ ∀ m ∈ done, P m.2 := by
  refine members_keep (P := fun done => InOrder done ∧ ∀ m ∈ done, P m.2) ?_
    ⟨.nil, List.forall_mem_nil _⟩ parts
  intro done name text next rest before one
  obtain ⟨_, _, one⟩ := bind_eq_ok one
  obtain ⟨⟨v, left⟩, part, one⟩ := bind_eq_ok one
  cases one
  refine ⟨insertMember_inOrder before.1 v, fun m member => ?_⟩
  rcases mem_insertMember member with rfl | member
  · exact holds part
  · exact before.2 m member

/-- One value is held if those inside its brackets are. -/
theorem valueWith_held {steps nesting : Nat} {inner : Option (Reader Value)}
    (held : ∀ read ∈ inner, ∃ n < nesting, ∀ {text v rest}, read text = .ok (v, rest) → v.Held n)
    {text rest : List Char} {v : Value} (read : valueWith steps inner text = .ok (v, rest)) :
    v.Held nesting := by
  rw [valueWith] at read
  split at read
  · contradiction
  · obtain ⟨_, _, read⟩ := bind_eq_ok read
    cases read; exact ⟨.null, Nat.zero_le _⟩
  · obtain ⟨_, _, read⟩ := bind_eq_ok read
    cases read; exact ⟨.bool _, Nat.zero_le _⟩
  · obtain ⟨_, _, read⟩ := bind_eq_ok read
    cases read; exact ⟨.bool _, Nat.zero_le _⟩
  · obtain ⟨_, _, read⟩ := bind_eq_ok read
    cases read; exact ⟨.string _, Nat.zero_le _⟩
  · cases inner with
    | none => contradiction
    | some inner =>
      obtain ⟨n, fewer, held⟩ := held inner rfl
      obtain ⟨⟨done, left⟩, parts, read⟩ := bind_eq_ok read
      cases read
      have kept : ∀ v ∈ done.reverse, v.Held n := fun v member =>
        gather_forall held parts v (List.mem_reverse.mp member)
      exact (Value.Held.array kept).mono fewer
  · cases inner with
    | none => contradiction
    | some inner =>
      obtain ⟨n, fewer, held⟩ := held inner rfl
      obtain ⟨⟨done, left⟩, parts, read⟩ := bind_eq_ok read
      cases read
      obtain ⟨ordered, kept⟩ := keep_forall held parts
      exact (Value.Held.object ordered kept).mono fewer
  · split at read
    · obtain ⟨⟨n, left⟩, number, read⟩ := bind_eq_ok read
      cases read
      refine ⟨?_, Nat.zero_le _⟩
      cases n with
      | integer n => exact .integer (isWord64_of_number number)
      | float x => exact .float x
    · contradiction

/-- Every value that is read is one that can be held. -/
theorem value_held {steps nesting : Nat} {text rest : List Char} {v : Value}
    (read : value steps nesting text = .ok (v, rest)) : v.Held nesting := by
  induction nesting generalizing text rest v with
  | zero => exact valueWith_held (fun _ some => by contradiction) read
  | succ nesting ih =>
    refine valueWith_held (fun _ same => ?_) read
    cases same
    exact ⟨nesting, Nat.lt_succ_self _, ih⟩

/-! ### Records -/

theorem list_forall {α : Type} {item : Budget → Reader α} {b : Budget} {P : α → Prop}
    (holds : ∀ nesting < b.nesting, ∀ {text a rest},
      item { b with nesting } text = .ok (a, rest) → P a)
    {text rest : List Char} {as : List α} (read : list item b text = .ok (as, rest)) :
    ∀ a ∈ as, P a := by
  rw [list] at read
  split at read
  · contradiction
  · split at read
    · contradiction
    rename_i nesting same
    obtain ⟨⟨done, left⟩, parts, read⟩ := bind_eq_ok read
    cases read
    have gathered := gather_forall (holds nesting (by omega)) parts
    exact fun a member => gathered a (List.mem_reverse.mp member)
  · contradiction

section Records
variable {ρ : Type} {P : ρ → Prop}

/-- What every part of a record keeps: it holds at first, and reading a field or
storing an inlined one leaves it so. -/
structure Shape.Keeps (shape : Shape ρ) (b : Budget) (P : ρ → Prop) : Prop where
  default : P shape.default
  fields : ∀ field ∈ shape.fields, ∀ {r text next rest}, P r →
    field.read b r text = .ok (next, rest) → P next
  inlined : ∀ fields ∈ shape.inlined, ∀ field ∈ fields, ∀ {r v next}, P r →
    field.store r v = .ok next → P next

theorem Shape.member_keep {shape : Shape ρ} {b : Budget} (keeps : shape.Keeps b P)
    {p next : Progress ρ} {name : String} {text rest : List Char} (before : P p.record)
    (read : shape.member b p name text = .ok (next, rest)) : P next.record := by
  rw [Shape.member] at read
  split at read
  · rename_i field found
    split at read
    · contradiction
    · obtain ⟨_, _, read⟩ := bind_eq_ok read
      obtain ⟨⟨record, left⟩, one, read⟩ := bind_eq_ok read
      cases read
      exact keeps.fields field (List.mem_of_find?_eq_some found) before one
  · obtain ⟨_, _, read⟩ := bind_eq_ok read
    split at read
    · obtain ⟨_, _, read⟩ := bind_eq_ok read
      cases read; exact before
    · obtain ⟨_, _, read⟩ := bind_eq_ok read
      cases read; exact before

theorem settle_keep {fields : List (InlinedField ρ)}
    (keeps : ∀ field ∈ fields, ∀ {r v next}, P r → field.store r v = .ok next → P next)
    {aside : List (String × Value)} {seen : List String} {r final : ρ} (start : P r)
    (settled : settle fields aside seen r = .ok final) : P final := by
  induction aside generalizing seen r with
  | nil => cases settled; exact start
  | cons m aside ih =>
    rw [settle] at settled
    split at settled
    · exact ih start settled
    rename_i field found
    split at settled
    · contradiction
    split at settled
    · contradiction
    · rename_i stored
      exact ih (keeps field (List.mem_of_find?_eq_some found) start stored) settled

theorem positionalFields_keep {b : Budget} {fields : List (Field ρ)}
    (keeps : ∀ field ∈ fields, ∀ {r text next rest}, P r →
      field.read b r text = .ok (next, rest) → P next)
    {first : Bool} {r final : ρ} {text rest : List Char} (start : P r)
    (read : positionalFields b fields first r text = .ok (final, rest)) : P final := by
  induction fields generalizing first r text with
  | nil =>
    rw [positionalFields] at read
    split at read
    · contradiction
    · cases read; exact start
    · contradiction
  | cons field fields ih =>
    obtain ⟨here, later⟩ := List.forall_mem_cons.mp keeps
    rw [positionalFields] at read
    split at read
    · contradiction
    · cases read; exact start
    split at read
    · obtain ⟨⟨next, left⟩, one, more⟩ := bind_eq_ok read
      exact ih later (here start one) more
    split at read
    · split at read
      · contradiction
      · contradiction
      · obtain ⟨⟨next, left⟩, one, more⟩ := bind_eq_ok read
        exact ih later (here start one) more
    · contradiction

/-- What every part of a record keeps holds of the whole. -/
theorem Shape.read_keep {shape : Shape ρ} {b : Budget}
    (keeps : ∀ nesting < b.nesting, shape.Keeps { b with nesting } P)
    {text rest : List Char} {r : ρ} (read : shape.read b text = .ok (r, rest)) : P r := by
  rw [Shape.read] at read
  split at read
  · contradiction
  · split at read
    · contradiction
    rename_i nesting same
    have keeps := keeps nesting (by omega)
    obtain ⟨⟨p, left⟩, gathered, read⟩ := bind_eq_ok read
    obtain ⟨r, finished, read⟩ := bind_eq_ok read
    cases read
    have before : P p.record :=
      members_keep (P := fun p => P p.record) (shape.member_keep keeps) keeps.default gathered
    rw [Shape.finish] at finished
    split at finished
    · cases finished; exact before
    · rename_i fields inlined
      split at finished
      · cases finished
        exact settle_keep (keeps.inlined fields inlined) before ‹_›
      · contradiction
  · split at read
    · split at read
      · contradiction
      rename_i nesting same
      have keeps := keeps nesting (by omega)
      exact positionalFields_keep keeps.fields keeps.default read
    · contradiction

/-- What a usual field stores is what it has read. -/
theorem Field.of_stored {α : Type} {name : String} {read : Budget → Reader α} {store : ρ → α → ρ}
    {b : Budget} {r next : ρ} {text rest : List Char}
    (stored : (Field.of name read store).read b r text = .ok (next, rest)) :
    ∃ a, read b text = .ok (a, rest) ∧ next = store r a := by
  obtain ⟨⟨a, left⟩, one, stored⟩ := bind_eq_ok stored
  cases stored
  exact ⟨a, one, rfl⟩

theorem InlinedField.ofString_stored {name : String} {store : ρ → String → ρ} {r next : ρ}
    {v : Value} (stored : (InlinedField.ofString name store).store r v = .ok next) :
    ∃ s, next = store r s := by
  simp only [InlinedField.ofString] at stored
  split at stored
  · cases stored; exact ⟨_, rfl⟩
  · contradiction

end Records

end SymbolAtlas.Json
