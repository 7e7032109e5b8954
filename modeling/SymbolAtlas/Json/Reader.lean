import SymbolAtlas.Json.Lexeme

/-! Arrays, objects and whole values. The loop over the parts of an array and the
loop over the members of an object are written once each, over a reader for one
part; reading a value to keep it, skipping one, and reading a record all use them.

A text can be read in no more steps than it has characters, so the loops count
down a number of steps taken from the length of the whole text. Brackets that are
kept may be nested only to a limit; brackets that are skipped may not run out. -/
namespace SymbolAtlas.Json

/-- What a reader may spend: steps of a loop, and brackets it may still open. -/
structure Budget where
  steps : Nat
  nesting : Nat
  deriving DecidableEq, Repr

/-- How many brackets may be open at once around what is kept. -/
def maxNesting : Nat := 127

/-- The budget for a whole text. -/
def Budget.ofText (text : List Char) : Budget := ⟨text.length + 1, maxNesting⟩

/-- The parts of an array after its opening bracket, up to and including the
closing one, each handed to `item` with the state gathered so far. -/
def items {σ : Type} (item : σ → Reader σ) : Nat → Bool → σ → Reader σ
  | 0, _, _, _ => .error .malformed
  | steps + 1, first, state, text =>
    match skipBlanks text with
    | [] => .error .truncated
    | ']' :: rest => .ok (state, rest)
    | c :: rest =>
      if first then do
        let (state, rest) ← item state (c :: rest)
        items item steps false state rest
      else if c = ',' then
        match skipBlanks rest with
        | [] => .error .truncated
        | ']' :: _ => .error .malformed
        | next => do
          let (state, rest) ← item state next
          items item steps false state rest
      else .error .malformed

/-- The members of an object after its opening bracket, up to and including the
closing one. Names are always decoded; `member` is given the name and starts
right after it, before the colon. -/
def members {σ : Type} (member : σ → String → Reader σ) : Nat → Bool → σ → Reader σ
  | 0, _, _, _ => .error .malformed
  | steps + 1, first, state, text =>
    match skipBlanks text with
    | [] => .error .truncated
    | '\x7d' :: rest => .ok (state, rest)
    | c :: rest =>
      let named (text : List Char) : Except Fault (σ × List Char) := do
        let (name, rest) ← stringBody (steps + 1) [] text
        let (state, rest) ← member state name rest
        members member steps false state rest
      if first then
        if c = '"' then named rest else .error .malformed
      else if c = ',' then
        match skipBlanks rest with
        | [] => .error .truncated
        | '"' :: rest => named rest
        | _ => .error .malformed
      else .error .malformed

/-- The colon between a name and its value. -/
def colon (text : List Char) : Except Fault (List Char) :=
  match skipBlanks text with
  | [] => .error .truncated
  | ':' :: rest => .ok rest
  | _ => .error .malformed

/-- One value, where `inner` reads a value inside a bracket, if one more bracket
may be opened. -/
def valueWith (steps : Nat) (inner : Option (Reader Value)) : Reader Value := fun text =>
  match skipBlanks text with
  | [] => .error .truncated
  | 'n' :: rest => do
    let rest ← word ['u', 'l', 'l'] rest
    .ok (.null, rest)
  | 't' :: rest => do
    let rest ← word ['r', 'u', 'e'] rest
    .ok (.bool true, rest)
  | 'f' :: rest => do
    let rest ← word ['a', 'l', 's', 'e'] rest
    .ok (.bool false, rest)
  | '"' :: rest => do
    let (s, rest) ← stringBody steps [] rest
    .ok (.string s, rest)
  | '[' :: rest =>
    match inner with
    | none => .error .malformed
    | some inner => do
      let item (done : List Value) : Reader (List Value) := fun text => do
        let (v, rest) ← inner text
        .ok (v :: done, rest)
      let (done, rest) ← items item steps true [] rest
      .ok (.array done.reverse, rest)
  | '\x7b' :: rest =>
    match inner with
    | none => .error .malformed
    | some inner => do
      let member (done : List (String × Value)) (name : String) :
          Reader (List (String × Value)) := fun text => do
        let text ← colon text
        let (v, rest) ← inner text
        .ok (insertMember name v done, rest)
      let (done, rest) ← members member steps true [] rest
      .ok (.object done, rest)
  | c :: rest =>
    if c = '-' ∨ c.isDigit then do
      let (n, rest) ← number (c :: rest)
      .ok (.number n, rest)
    else .error .malformed

/-- One value that is kept, inside no more than `nesting` further brackets. -/
def value (steps : Nat) : Nat → Reader Value
  | 0, text => valueWith steps none text
  | nesting + 1, text => valueWith steps (some fun inner => value steps nesting inner) text

/-- The outline of one value, where `inner` skips a value inside a bracket. -/
def skipWith (steps : Nat) (inner : Reader Unit) : Reader Unit := fun text =>
  match skipBlanks text with
  | [] => .error .truncated
  | 'n' :: rest => (word ['u', 'l', 'l'] rest).map ((), ·)
  | 't' :: rest => (word ['r', 'u', 'e'] rest).map ((), ·)
  | 'f' :: rest => (word ['a', 'l', 's', 'e'] rest).map ((), ·)
  | '"' :: rest => (skipString steps rest).map ((), ·)
  | '[' :: rest => items (fun _ => inner) steps true () rest
  | '\x7b' :: rest => skipMembers steps true rest
  | c :: rest =>
    if c = '-' ∨ c.isDigit then (skipNumber (c :: rest)).map ((), ·)
    else .error .malformed
where
  /-- The members of a skipped object: unlike those of a kept one, their names are
  only checked for their outline. -/
  skipMembers : Nat → Bool → Reader Unit
    | 0, _, _ => .error .malformed
    | steps + 1, first, text =>
      match skipBlanks text with
      | [] => .error .truncated
      | '\x7d' :: rest => .ok ((), rest)
      | c :: rest =>
        let named (text : List Char) : Except Fault (Unit × List Char) := do
          let rest ← skipString (steps + 1) text
          let rest ← colon rest
          let (_, rest) ← inner rest
          skipMembers steps false rest
        if first then
          if c = '"' then named rest else .error .malformed
        else if c = ',' then
          match skipBlanks rest with
          | [] => .error .truncated
          | '"' :: rest => named rest
          | _ => .error .malformed
        else .error .malformed

/-- The outline of one value. A text opens no more brackets than it has
characters, so `nesting` never runs out when it starts there. -/
def skip (steps : Nat) : Nat → Reader Unit
  | 0, _ => .error .malformed
  | nesting + 1, text => skipWith steps (fun inner => skip steps nesting inner) text

/-- What is reported of a part that begins with `c` where another kind of value
is expected. Words, numbers and strings are read to their end first, and what is
wrong with them comes before their kind. -/
def unexpected (steps : Nat) (expected : String) (c : Char) (rest : List Char) : Fault :=
  let instead (found : Found) : Fault := .misfit (.wrongType found expected)
  let orFault {α : Type} (read : Except Fault α) (found : α → Found) : Fault :=
    match read with
    | .ok a => instead (found a)
    | .error fault => fault
  match c with
  | 'n' => orFault (word ['u', 'l', 'l'] rest) fun _ => .null
  | 't' => orFault (word ['r', 'u', 'e'] rest) fun _ => .bool true
  | 'f' => orFault (word ['a', 'l', 's', 'e'] rest) fun _ => .bool false
  | '"' => orFault (stringBody steps [] rest) fun (s, _) => .string s
  | '[' => instead .sequence
  | '\x7b' => instead .map
  | _ =>
    if c = '-' ∨ c.isDigit then orFault (number (c :: rest)) fun (n, _) => .number n
    else .malformed

/-- A string, where nothing else will do. -/
def string (b : Budget) : Reader String := fun text =>
  match skipBlanks text with
  | [] => .error .truncated
  | '"' :: rest => stringBody b.steps [] rest
  | c :: rest => .error (unexpected b.steps "a string" c rest)

/-- A truth value, where nothing else will do. -/
def boolean (b : Budget) : Reader Bool := fun text =>
  match skipBlanks text with
  | [] => .error .truncated
  | 't' :: rest => (word ['r', 'u', 'e'] rest).map (true, ·)
  | 'f' :: rest => (word ['a', 'l', 's', 'e'] rest).map (false, ·)
  | c :: rest => .error (unexpected b.steps "a boolean" c rest)

/-- A number of 32 bits without sign. A float is of the wrong type whatever its
value is; an integer outside the width is of the right type. -/
def word32 (b : Budget) : Reader UInt32 := fun text =>
  match skipBlanks text with
  | [] => .error .truncated
  | c :: rest =>
    if c = '-' ∨ c.isDigit then do
      let (n, rest) ← number (c :: rest)
      match n with
      | .integer i =>
        if 0 ≤ i ∧ i < UInt32.size then .ok (i.toNat.toUInt32, rest)
        else .error (.misfit (.outOfRange i "u32"))
      | .float _ => .error (.misfit (.wrongType (.number n) "u32"))
    else .error (unexpected b.steps "u32" c rest)

/-- A list of things that `item` reads with one bracket less to open. -/
def list {α : Type} (item : Budget → Reader α) (b : Budget) : Reader (List α) := fun text =>
  match skipBlanks text with
  | [] => .error .truncated
  | '[' :: rest =>
    match b.nesting with
    | 0 => .error .malformed
    | nesting + 1 => do
      let one (done : List α) : Reader (List α) := fun text => do
        let (a, rest) ← item { b with nesting } text
        .ok (a :: done, rest)
      let (done, rest) ← items one b.steps true [] rest
      .ok (done.reverse, rest)
  | c :: rest => .error (unexpected b.steps "a sequence" c rest)

/-- Any value, kept. -/
def anyValue (b : Budget) : Reader Value := value b.steps b.nesting

end SymbolAtlas.Json
