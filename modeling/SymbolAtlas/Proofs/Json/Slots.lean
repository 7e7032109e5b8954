import Mathlib.Data.List.Nodup
import Mathlib.Data.List.Pairwise
import SymbolAtlas.Proofs.Json.ObjectText

/-! Every known name has a slot in a record. What a member makes of the record depends on
nothing but its slot and the text of its value, and what is put into one slot does not
disturb what is put into another: two members can be put in either order, unless they have
the same known name. -/
namespace SymbolAtlas.Json

/-! ### Changes that commute -/

/-- Two changes, each of which may fail, that come to the same in either order. -/
def Commutes {ρ : Type} (f g : ρ → Option ρ) : Prop := ∀ r, (f r).bind g = (g r).bind f

section Changes
variable {ρ α β : Type}

theorem Commutes.symm {f g : ρ → Option ρ} (commute : Commutes f g) : Commutes g f :=
  fun r => (commute r).symm

/-- A change that is none, or always fails, commutes with every other. -/
theorem commute_of_idle {f : ρ → Option ρ} (idle : (∀ r, f r = some r) ∨ ∀ r, f r = none)
    (g : ρ → Option ρ) : Commutes f g := by
  intro r
  rcases idle with keeps | fails
  · cases changed : g r with
    | none => rw [keeps, Option.bind_some, changed]; rfl
    | some next => rw [keeps, Option.bind_some, changed, Option.bind_some, keeps]
  · cases changed : g r with
    | none => rw [fails]; rfl
    | some next => rw [fails, Option.bind_some, fails]; rfl

/-- Changes that store in different slots commute. -/
theorem commute_of_stores {store : ρ → α → ρ} {other : ρ → β → ρ}
    (apart : ∀ r a b, other (store r a) b = store (other r b) a) (a : Option α) (b : Option β) :
    Commutes (fun r => a.map (store r)) (fun r => b.map (other r)) := by
  intro r
  cases a with
  | none => cases b <;> rfl
  | some a =>
    cases b with
    | none => rfl
    | some b => exact congrArg some (apart r a b)

/-- A run of changes comes to the same in any order in which they commute. -/
theorem foldlM_perm {change : ρ → α → Option ρ} {as bs : List α} (perm : as.Perm bs)
    (commute : ∀ a ∈ as, ∀ b ∈ as, Commutes (change · a) (change · b)) (r : ρ) :
    as.foldlM change r = bs.foldlM change r := by
  induction perm generalizing r with
  | nil => rfl
  | cons a _ ih =>
    simp only [List.foldlM_cons]
    exact congrArg _ (funext fun next => ih (fun b one c two =>
      commute b (List.mem_cons_of_mem a one) c (List.mem_cons_of_mem a two)) next)
  | swap a b rest =>
    simp only [List.foldlM_cons, ← bind_assoc]
    exact congrArg (· >>= _) (commute b List.mem_cons_self a
      (List.mem_cons_of_mem b List.mem_cons_self) r)
  | trans first _ ih ihToo =>
    refine (ih commute r).trans (ihToo (fun a one b two => ?_) r)
    exact commute a (first.mem_iff.mpr one) b (first.mem_iff.mpr two)

theorem foldlM_idle {change : ρ → α → Option ρ} {as : List α} {r : ρ}
    (idle : ∀ a ∈ as, ∀ r, change r a = some r) : as.foldlM change r = some r := by
  induction as with
  | nil => rfl
  | cons a as ih =>
    obtain ⟨here, later⟩ := List.forall_mem_cons.mp idle
    rw [List.foldlM_cons, here]
    exact ih later

end Changes

/-! ### What has a name -/

section Named
variable {α : Type} {nameOf : α → String} {as : List α} {name : String}

theorem find?_named_eq_none : as.find? (nameOf · = name) = none ↔ name ∉ as.map nameOf := by
  simp

theorem find?_named {a : α} (found : as.find? (nameOf · = name) = some a) : nameOf a = name := by
  simpa using List.find?_some found

theorem mem_names_of_find? {a : α} (found : as.find? (nameOf · = name) = some a) :
    name ∈ as.map nameOf :=
  List.mem_map.mpr ⟨a, List.mem_of_find?_eq_some found, find?_named found⟩

end Named

/-! ### Slots -/

variable {ρ : Type}

/-- The value that a text is read as when it is kept aside. -/
def valueOf (nesting : Nat) (text : List Char) : Option Value :=
  exactly (anyValue ⟨text.length, nesting⟩ text)

/-- A member whose value can be kept aside inside so many brackets. -/
def RawMember.Readable (nesting : Nat) (m : RawMember) : Prop :=
  ∃ v, anyValue ⟨m.value.length, nesting⟩ m.value = .ok (v, [])

/-- What a field makes of the record when it is given a text. -/
def Field.update (nesting : Nat) (field : Field ρ) (text : List Char) (r : ρ) : Option ρ :=
  exactly (field.read ⟨text.length, nesting⟩ r text)

/-- What an inlined field makes of the record when it is given what a text is read as. -/
def InlinedField.update (field : InlinedField ρ) (v : Option Value) (r : ρ) : Option ρ :=
  v.bind fun v => (field.store r v).toOption

/-- What inlined fields make of the record for a name and what a text is read as. -/
def putAside (fields : List (InlinedField ρ)) (name : String) (v : Option Value) (r : ρ) :
    Option ρ :=
  match fields.find? (·.name = name) with
  | some field => field.update v r
  | none => v.map fun _ => r

theorem putAside_known {fields : List (InlinedField ρ)} {field : InlinedField ρ} {name : String}
    (found : fields.find? (·.name = name) = some field) (v : Option Value) :
    putAside fields name v = field.update v := by
  funext r
  simp only [putAside, found]

theorem putAside_unknown {fields : List (InlinedField ρ)} {name : String}
    (found : fields.find? (·.name = name) = none) (v : Option Value) :
    putAside fields name v = fun r => v.map fun _ => r := by
  funext r
  simp only [putAside, found]

/-- A known name, and all the changes that a member of this name can make. -/
structure Slot (ρ : Type) where
  name : String
  Updates : (ρ → Option ρ) → Prop

def Field.slot (nesting : Nat) (field : Field ρ) : Slot ρ where
  name := field.name
  Updates change := ∃ text, change = field.update nesting text

def InlinedField.slot (field : InlinedField ρ) : Slot ρ where
  name := field.name
  Updates change := ∃ v, change = field.update v

/-- Two slots that can be filled in either order. -/
def Slot.Apart (p q : Slot ρ) : Prop := ∀ f, p.Updates f → ∀ g, q.Updates g → Commutes f g

instance : Std.Symm (Slot.Apart (ρ := ρ)) where
  symm _ _ apart f one g two := (apart g two f one).symm

/-- A slot that `store` fills, if it is given anything to store. -/
inductive Slot.Stores : {α : Type} → Slot ρ → (ρ → α → ρ) → Prop
  | field {α : Type} (name : String) (read : Budget → Reader α) (store : ρ → α → ρ)
      (nesting : Nat) : Stores ((Field.of name read store).slot nesting) store
  | inlined (name : String) (store : ρ → String → ρ) :
      Stores (InlinedField.ofString name store).slot store

/-- What is made of all that was read, if nothing is left. -/
theorem exactly_bind {α β : Type} (read : Except Fault (α × List Char)) (make : α → β) :
    exactly (read >>= fun done => .ok (make done.1, done.2)) = (exactly read).map make := by
  cases read with
  | error => rfl
  | ok done =>
    obtain ⟨a, rest⟩ := done
    cases rest <;> rfl

theorem Slot.Stores.updates {α : Type} {p : Slot ρ} {store : ρ → α → ρ} (stores : p.Stores store)
    {change : ρ → Option ρ} (updates : p.Updates change) :
    ∃ a : Option α, change = fun r => a.map (store r) := by
  cases stores with
  | field name read _ nesting =>
    obtain ⟨text, rfl⟩ := updates
    exact ⟨exactly (read ⟨text.length, nesting⟩ text), funext fun r => exactly_bind _ (store r)⟩
  | inlined name =>
    obtain ⟨v, rfl⟩ := updates
    cases v with
    | none => exact ⟨none, rfl⟩
    | some v =>
      cases v with
      | string s => exact ⟨some s, rfl⟩
      | null | bool | number | array | object => exact ⟨none, rfl⟩

theorem Slot.Stores.apart {α β : Type} {p q : Slot ρ} {store : ρ → α → ρ} {other : ρ → β → ρ}
    (one : p.Stores store) (two : q.Stores other)
    (apart : ∀ r a b, other (store r a) b = store (other r b) a) : p.Apart q := by
  intro f updates g updatesToo
  obtain ⟨a, rfl⟩ := one.updates updates
  obtain ⟨b, rfl⟩ := two.updates updatesToo
  exact commute_of_stores apart a b

namespace Shape
variable (shape : Shape ρ)

/-- The inlined fields, if there are any. -/
def aside : List (InlinedField ρ) := shape.inlined.getD []

def slots (nesting : Nat) : List (Slot ρ) :=
  shape.fields.map (·.slot nesting) ++ shape.aside.map (·.slot)

/-- The names that are known: those of the fields and of the inlined fields. -/
def names : List String := shape.fields.map (·.name) ++ shape.aside.map (·.name)

/-- A record of which any two slots can be filled in either order. -/
def Independent (nesting : Nat) : Prop := (shape.slots nesting).Pairwise Slot.Apart

/-- What a member makes of the record, as if nothing were kept aside. -/
def put (nesting : Nat) (r : ρ) (m : RawMember) : Option ρ :=
  match shape.fields.find? (·.name = m.name) with
  | some field => field.update nesting m.value r
  | none =>
    match shape.inlined with
    | none => some r
    | some fields => putAside fields m.name (valueOf nesting m.value) r

section Put
variable {shape : Shape ρ} {nesting : Nat} {m : RawMember}

theorem put_own {field : Field ρ} (own : shape.fields.find? (·.name = m.name) = some field) :
    (shape.put nesting · m) = field.update nesting m.value := by
  simp only [put, own]

section Foreign
variable (foreign : shape.fields.find? (·.name = m.name) = none)
include foreign

theorem put_skipped (plain : shape.inlined = none) : (shape.put nesting · m) = some := by
  simp only [put, foreign, plain]

theorem put_inlined {fields : List (InlinedField ρ)} (inlined : shape.inlined = some fields) :
    (shape.put nesting · m) = putAside fields m.name (valueOf nesting m.value) := by
  simp only [put, foreign, inlined]

end Foreign

theorem aside_eq {fields : List (InlinedField ρ)} (inlined : shape.inlined = some fields) :
    shape.aside = fields := by
  rw [aside, inlined, Option.getD_some]

theorem aside_eq_nil (plain : shape.inlined = none) : shape.aside = [] := by
  rw [aside, plain, Option.getD_none]

/-- A member of a known name makes one of the changes of a slot of this name. -/
theorem put_known (nesting : Nat) {m : RawMember} (known : m.name ∈ shape.names) :
    ∃ slot ∈ shape.slots nesting, slot.name = m.name ∧
      slot.Updates (shape.put nesting · m) := by
  cases own : shape.fields.find? (·.name = m.name) with
  | some field =>
    have member := List.mem_map_of_mem (f := (·.slot nesting)) (List.mem_of_find?_eq_some own)
    have named := find?_named own
    exact ⟨_, List.mem_append_left _ member, named, m.value, put_own own⟩
  | none =>
    have other := (List.mem_append.mp known).resolve_left (find?_named_eq_none.mp own)
    cases inlined : shape.inlined with
    | none =>
      rw [aside_eq_nil inlined] at other
      exact absurd other List.not_mem_nil
    | some fields =>
      rw [aside_eq inlined] at other
      cases found : fields.find? (·.name = m.name) with
      | none => exact absurd other (find?_named_eq_none.mp found)
      | some field =>
        have member : field.slot ∈ shape.aside.map (·.slot) := by
          rw [aside_eq inlined]
          exact List.mem_map_of_mem (List.mem_of_find?_eq_some found)
        have change := (put_inlined own inlined).trans
          (putAside_known found (valueOf nesting m.value))
        have named := find?_named found
        exact ⟨_, List.mem_append_right _ member, named, valueOf nesting m.value, change⟩

/-- A member of an unknown name changes nothing, but in a record with inlined fields its
value must be one. -/
theorem put_unknown (unknown : m.name ∉ shape.names) (r : ρ) :
    shape.put nesting r m =
      if shape.inlined.isSome then (valueOf nesting m.value).map fun _ => r else some r := by
  obtain ⟨foreign, other⟩ := not_or.mp (mt List.mem_append.mpr unknown)
  have own : shape.fields.find? (·.name = m.name) = none := find?_named_eq_none.mpr foreign
  cases inlined : shape.inlined with
  | none => exact congrFun (put_skipped own inlined) r
  | some fields =>
    rw [aside_eq inlined] at other
    refine (congrFun (put_inlined own inlined) r).trans ?_
    exact congrFun (putAside_unknown (find?_named_eq_none.mpr other) _) r

theorem put_readable (unknown : m.name ∉ shape.names) (readable : m.Readable nesting) (r : ρ) :
    shape.put nesting r m = some r := by
  obtain ⟨v, read⟩ := readable
  rw [put_unknown unknown, valueOf, read]
  split <;> rfl

/-- Two members can be put in either order, unless they have the same known name. -/
theorem put_commute (independent : shape.Independent nesting) {m n : RawMember}
    (other : m.name ∈ shape.names → m.name ≠ n.name) :
    Commutes (shape.put nesting · m) (shape.put nesting · n) := by
  have idle {m : RawMember} (unknown : m.name ∉ shape.names) :
      (∀ r, shape.put nesting r m = some r) ∨ ∀ r, shape.put nesting r m = none := by
    simp only [put_unknown unknown]
    cases shape.inlined with
    | none => exact .inl fun _ => rfl
    | some fields =>
      cases valueOf nesting m.value with
      | none => exact .inr fun _ => rfl
      | some v => exact .inl fun _ => rfl
  by_cases known : m.name ∈ shape.names
  · by_cases knownToo : n.name ∈ shape.names
    · obtain ⟨p, slotted, named, updates⟩ := put_known nesting known
      obtain ⟨q, slottedToo, namedToo, updatesToo⟩ := put_known nesting knownToo
      have distinct : p ≠ q := by
        rintro rfl
        exact other known (named.symm.trans namedToo)
      exact independent.forall slotted slottedToo distinct _ updates _ updatesToo
    · exact (commute_of_idle (idle knownToo) _).symm
  · exact commute_of_idle (idle known) _

end Put

end Shape

end SymbolAtlas.Json
