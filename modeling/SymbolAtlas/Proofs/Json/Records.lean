import SymbolAtlas.Json.Record
import SymbolAtlas.Proofs.Json.Values

/-! A record is read back from its members. They are followed one after another: a
field that is written brings the record one step further, a field that is left out
must have been there from the start. What is needed of a field is only that its own
value is read back wherever the budget allows it, so that records may hold lists of
records. -/
namespace SymbolAtlas.Json

/-! ### Within a budget -/

/-- The budget is large enough for the text of a value. -/
structure Budget.Covers (b : Budget) (v : Value) : Prop where
  opens : v.nesting ≤ b.nesting
  enough : v.chars.length ≤ b.steps

/-- Under every budget that is large enough, the text of `v` is read as `a`. -/
def Reads {α : Type} (read : Budget → Reader α) (v : Value) (a : α) : Prop :=
  ∀ b : Budget, b.Covers v → ReadsBack (read b) v.chars a

theorem string_reads (s : String) : Reads string (.string s) s := by
  intro b covers
  refine ⟨startsPart_stringText s, fun rest _ => ?_⟩
  obtain ⟨body, text, read⟩ := stringBody_text s rest covers.enough
  rw [Value.chars, text, List.cons_append]
  exact read

theorem boolean_reads (c : Bool) : Reads boolean (.bool c) c := by
  intro b _
  cases c with
  | true => exact ⟨⟨'t', _, rfl, by decide, by decide⟩, fun rest _ => rfl⟩
  | false => exact ⟨⟨'f', _, rfl, by decide, by decide⟩, fun rest _ => rfl⟩

theorem word32_reads (n : UInt32) : Reads word32 (.number (.integer n.toNat)) n := by
  intro b _
  refine ⟨startsPart_chars (.integer _), fun rest ends => ?_⟩
  have small := n.toNat_lt
  have fits : IsWord64 n.toNat := ⟨by omega, by simp only [UInt64.size]; omega⟩
  have read := number_signedDigits fits ends
  obtain ⟨c, more, text, front⟩ := signedDigits_front n.toNat
  rw [Value.chars, Number.text]
  rw [text, List.cons_append] at read ⊢
  rw [word32, skipBlanks_cons (not_isJsonBlank_of_number_front front)]
  have within : 0 ≤ (n.toNat : Int) ∧ (n.toNat : Int) < UInt32.size :=
    ⟨by omega, by simp only [UInt32.size]; omega⟩
  simp only [if_pos front, read, bind, Except.bind, if_pos within, Int.toNat_natCast]
  rw [Nat.toUInt32, UInt32.ofNat_toNat]

theorem anyValue_reads {v : Value} (valid : v.Valid) (integral : v.Integral) :
    Reads anyValue v v :=
  fun _ covers => value_readsBack valid integral covers.opens covers.enough

/-- A list is read back if its elements are. -/
theorem list_reads {α : Type} {item : Budget → Reader α} {shown : α → Value} {as : List α}
    (back : ∀ a ∈ as, Reads item (shown a) a) :
    Reads (list item) (.array (as.map shown)) as := by
  intro ⟨steps, nesting⟩ ⟨opens, enough⟩
  refine ⟨⟨'[', _, rfl, by decide, by decide⟩, fun rest _ => ?_⟩
  rw [Value.nesting] at opens
  obtain ⟨nesting, rfl⟩ := Nat.exists_eq_succ_of_ne_zero (Nat.ne_zero_of_lt opens)
  have opens := itemsNesting_le_iff.mp (Nat.le_of_succ_le_succ opens)
  have parts : ∀ a ∈ as, ReadsBack (item ⟨steps, nesting⟩) (shown a).chars a := by
    intro a member
    have shown := List.mem_map_of_mem (f := shown) member
    exact back a member _ ⟨opens _ shown, Nat.le_trans (length_chars_le_array shown) enough⟩
  rw [Value.chars, List.length_cons, List.length_append, List.length_singleton] at enough
  have fewer := length_le_itemChars (as.map shown)
  rw [List.length_map] at fewer
  have fits : as.length < steps := by simp only at enough; omega
  have read := items_gather parts fits rest
  have unfolded :
      list item ⟨steps, nesting + 1⟩ ('[' :: (itemChars (as.map shown) ++ ']' :: rest)) =
      (items (gather (item ⟨steps, nesting⟩)) steps true []
        (itemChars (as.map shown) ++ ']' :: rest)).bind
        fun done => .ok (done.1.reverse, done.2) := rfl
  rw [Value.chars, List.cons_append, List.append_assoc, List.singleton_append, unfolded, read]
  simp only [Except.bind, List.reverse_reverse]

/-! ### Member after member -/

section Shapes
variable {ρ α : Type} {shape : Shape ρ}

/-- The members `ms` of an object bring the record from its default to `record`, with
`aside` put aside, latest first. No known field is named outside `names`, which must
not repeat. -/
def Shape.Reached (shape : Shape ρ) (ms : List (String × Value)) (names : List String) (record : ρ)
    (aside : List (String × Value)) : Prop :=
  names.Nodup → ∀ b : Budget, (∀ m ∈ ms, b.Covers m.2) → ∃ p,
    Absorbs (shape.member b) { record := shape.default } ms p ∧
      p.record = record ∧ p.seen ⊆ names ∧ p.aside = aside

variable {ms : List (String × Value)} {names : List String} {record : ρ}
  {aside : List (String × Value)} {name : String}

theorem Shape.reached_nil (shape : Shape ρ) : shape.Reached [] [] shape.default [] :=
  fun _ _ _ => ⟨_, .none _, rfl, List.Subset.refl _, rfl⟩

section Field
variable {read : Budget → Reader α} {store : ρ → α → ρ}

/-- A field that is written is stored. -/
theorem Shape.Reached.field (name : String) (reached : shape.Reached ms names record aside)
    {v : Value} {a : α} (reads : Reads read v a)
    (found : shape.fields.find? (·.name = name) = some (.of name read store)) :
    shape.Reached (ms ++ [(name, v)]) (name :: names) (store record a) aside := by
  intro distinct b covers
  obtain ⟨fresh, distinct⟩ := List.nodup_cons.mp distinct
  rw [List.forall_mem_append, List.forall_mem_singleton] at covers
  obtain ⟨p, absorbed, rfl, seen, rfl⟩ := reached distinct b covers.1
  -- The names that have come are among `names`, so this one is not repeated.
  refine ⟨{ p with record := store p.record a, seen := name :: p.seen },
    absorbed.append (.next (fun rest ends => ?_) (.none _)), rfl,
    List.cons_subset_cons name seen, rfl⟩
  have colon : colon (':' :: (v.chars ++ rest)) = .ok (v.chars ++ rest) := rfl
  have unseen : name ∉ p.seen := fun member => fresh (seen member)
  have read := (reads b covers.2).reads rest ends
  simp only [Shape.member, found, if_neg unseen, colon, Field.of, read, bind, Except.bind]

/-- A field that is left out has its value from the start. -/
theorem Shape.Reached.leftOut (reached : shape.Reached ms names record aside) {a : α}
    (unset : store record a = record) :
    shape.Reached (ms ++ []) (name :: names) (store record a) aside := by
  intro distinct b covers
  rw [List.append_nil] at covers ⊢
  obtain ⟨p, absorbed, same, seen, put⟩ := reached distinct.of_cons b covers
  exact ⟨p, absorbed, same.trans unset.symm, fun _ member => List.mem_cons_of_mem _ (seen member),
    put⟩

end Field

/-- Members that are no field of the record are put aside. -/
theorem Shape.Reached.putAside (reached : shape.Reached ms names record aside)
    (inlined : shape.inlined.isSome = true) {more : List (String × Value)}
    (foreign : ∀ m ∈ more, shape.fields.find? (·.name = m.1) = none)
    (reads : ∀ m ∈ more, Reads anyValue m.2 m.2) :
    shape.Reached (ms ++ more) names record (more.reverse ++ aside) := by
  induction more generalizing ms aside with
  | nil => rwa [List.append_nil]
  | cons m more ih =>
    have latest : (m :: more).reverse ++ aside = more.reverse ++ m :: aside := by simp
    rw [List.append_cons, latest]
    refine ih ?_ (fun other member => foreign other (List.mem_cons_of_mem _ member))
      fun other member => reads other (List.mem_cons_of_mem _ member)
    intro distinct b covers
    rw [List.forall_mem_append, List.forall_mem_singleton] at covers
    obtain ⟨p, absorbed, same, seen, rfl⟩ := reached distinct b covers.1
    refine ⟨{ p with aside := m :: p.aside },
      absorbed.append (.next (fun rest ends => ?_) (.none _)), same, seen, rfl⟩
    obtain ⟨fields, some⟩ := Option.isSome_iff_exists.mp inlined
    have colon : colon (':' :: (m.2.chars ++ rest)) = .ok (m.2.chars ++ rest) := rfl
    have kept := (reads m List.mem_cons_self b covers.2).reads rest ends
    simp only [Shape.member, foreign m List.mem_cons_self, colon, some, kept, bind, Except.bind]

/-- Once the members are followed to the end, the object is read back. -/
theorem Shape.Reached.reads {final : ρ} (reached : shape.Reached ms names record aside)
    (distinct : names.Nodup)
    (finished : ∀ p, p.record = record → p.aside = aside → shape.finish p = .ok final) :
    Reads shape.read (.object ms) final := by
  intro ⟨steps, nesting⟩ ⟨opens, enough⟩
  refine ⟨⟨'\x7b', _, rfl, by decide, by decide⟩, fun rest _ => ?_⟩
  rw [Value.nesting] at opens
  obtain ⟨nesting, rfl⟩ := Nat.exists_eq_succ_of_ne_zero (Nat.ne_zero_of_lt opens)
  have opens := membersNesting_le_iff.mp (Nat.le_of_succ_le_succ opens)
  have covers : ∀ m ∈ ms, Budget.Covers ⟨steps, nesting⟩ m.2 := fun m member =>
    ⟨opens m member, Nat.le_trans (length_chars_le_object member) enough⟩
  obtain ⟨p, absorbed, same, _, put⟩ := reached distinct _ covers
  rw [Value.chars, List.length_cons, List.length_append, List.length_singleton] at enough
  simp only at enough
  have fits : (memberChars ms).length < steps := by omega
  have read := absorbed.members fits rest
  have unfolded : shape.read ⟨steps, nesting + 1⟩ ('\x7b' :: (memberChars ms ++ '\x7d' :: rest)) =
      (members (shape.member ⟨steps, nesting⟩) steps true { record := shape.default }
        (memberChars ms ++ '\x7d' :: rest)).bind
        fun p => (shape.finish p.1).bind fun record => .ok (record, p.2) := rfl
  rw [Value.chars, List.cons_append, List.append_assoc, List.singleton_append, unfolded, read]
  simp only [Except.bind, finished p same put]

end Shapes

end SymbolAtlas.Json
