import SymbolAtlas.Json.Reader

/-! Records are read by a table of their fields. Every field may be missing and
then keeps its default; a known field may not come twice, an unknown one may.

A plain record is an object, or an array of its fields in order. A record with
inlined fields takes the fields of another record among its own: they, and all
unknown members, are kept aside as values and looked at only when the object is
complete, so that a problem in a field of its own comes first. -/
namespace SymbolAtlas.Json

/-- A field that is read where it stands and stored in the record. -/
structure Field (ρ : Type) where
  name : String
  read : Budget → ρ → Reader ρ

/-- A field that is stored from a value kept aside. -/
structure InlinedField (ρ : Type) where
  name : String
  store : ρ → Value → Except Misfit ρ

/-- The shape of a record. -/
structure Shape (ρ : Type) where
  name : String
  /-- What stays where no field is given. -/
  default : ρ
  fields : List (Field ρ)
  /-- The inlined fields, if the record takes any. -/
  inlined : Option (List (InlinedField ρ)) := none

/-- What has been read of an object so far. -/
structure Progress (ρ : Type) where
  record : ρ
  /-- Names of the known fields that have come. -/
  seen : List String := []
  /-- Members kept aside, latest first. -/
  aside : List (String × Value) := []

variable {ρ : Type}

/-- One member of the object. A repeated name is refused before its colon. -/
def Shape.member (shape : Shape ρ) (b : Budget) (p : Progress ρ) (name : String) :
    Reader (Progress ρ) := fun text =>
  match shape.fields.find? (·.name = name) with
  | some field =>
    if name ∈ p.seen then .error (.misfit (.repeatedField name))
    else do
      let text ← colon text
      let (record, rest) ← field.read b p.record text
      .ok ({ p with record, seen := name :: p.seen }, rest)
  | none => do
    let text ← colon text
    match shape.inlined with
    | none =>
      let (_, rest) ← skip b.steps b.steps text
      .ok (p, rest)
    | some _ =>
      let (v, rest) ← anyValue b text
      .ok ({ p with aside := (name, v) :: p.aside }, rest)

/-- Stores the inlined fields among the members kept aside, in the order in which
they came. Members that are no field are dropped. -/
def settle (fields : List (InlinedField ρ)) :
    List (String × Value) → List String → ρ → Except Misfit ρ
  | [], _, record => .ok record
  | (name, v) :: rest, seen, record =>
    match fields.find? (·.name = name) with
    | none => settle fields rest seen record
    | some field =>
      if name ∈ seen then .error (.repeatedField name)
      else
        match field.store record v with
        | .error cause => .error cause
        | .ok record => settle fields rest (name :: seen) record

/-- The record once its object is complete. -/
def Shape.finish (shape : Shape ρ) (p : Progress ρ) : Except Fault ρ :=
  match shape.inlined with
  | none => .ok p.record
  | some fields =>
    match settle fields p.aside.reverse [] p.record with
    | .ok record => .ok record
    | .error cause => .error (.misfit cause)

/-- The fields of a record written as an array, after the opening bracket. Fields
at the end may be missing; more parts than fields are refused. -/
def positionalFields (b : Budget) : List (Field ρ) → Bool → ρ → Reader ρ
  | [], _, record, text =>
    match skipBlanks text with
    | [] => .error .truncated
    | ']' :: rest => .ok (record, rest)
    | _ => .error .malformed
  | field :: fields, first, record, text =>
    match skipBlanks text with
    | [] => .error .truncated
    | ']' :: rest => .ok (record, rest)
    | c :: rest =>
      if first then do
        let (record, rest) ← field.read b record (c :: rest)
        positionalFields b fields false record rest
      else if c = ',' then
        match skipBlanks rest with
        | [] => .error .truncated
        | ']' :: _ => .error .malformed
        | next => do
          let (record, rest) ← field.read b record next
          positionalFields b fields false record rest
      else .error .malformed

/-- A record inside a text. -/
def Shape.read (shape : Shape ρ) (b : Budget) : Reader ρ := fun text =>
  match skipBlanks text with
  | [] => .error .truncated
  | '\x7b' :: rest =>
    match b.nesting with
    | 0 => .error .malformed
    | nesting + 1 => do
      let (p, rest) ← members (shape.member { b with nesting }) b.steps true
        { record := shape.default } rest
      let record ← shape.finish p
      .ok (record, rest)
  | c :: rest =>
    if c = '[' ∧ shape.inlined.isNone then
      match b.nesting with
      | 0 => .error .malformed
      | nesting + 1 => positionalFields { b with nesting } shape.fields true shape.default rest
    else .error (unexpected b.steps ("struct " ++ shape.name) c rest)

/-- Nothing but blanks may follow. -/
def atEnd {α : Type} : α × List Char → Except Fault α
  | (a, rest) => if skipBlanks rest = [] then .ok a else .error .malformed

/-- A text that is one record and nothing else. -/
def Shape.ofText (shape : Shape ρ) (text : String) : Except Fault ρ := do
  let chars := text.toList
  let done ← shape.read (Budget.ofText chars) chars
  atEnd done

/-- A text that is one value and nothing else. -/
def Value.ofText (text : String) : Except Fault Value := do
  let chars := text.toList
  let done ← anyValue (Budget.ofText chars) chars
  atEnd done

/-! ### Fields of the usual kinds -/

/-- A field that `read` reads on its own and `store` puts in place. -/
def Field.of {α : Type} (name : String) (read : Budget → Reader α) (store : ρ → α → ρ) :
    Field ρ where
  name
  read b record text := do
    let (a, rest) ← read b text
    .ok (store record a, rest)

/-- An inlined field that must be a string. -/
def InlinedField.ofString (name : String) (store : ρ → String → ρ) : InlinedField ρ where
  name
  store record
    | .string s => .ok (store record s)
    | v => .error (.wrongType v.found "a string")

end SymbolAtlas.Json
