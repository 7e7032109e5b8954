import SymbolAtlas.Json.Fault
import SymbolAtlas.Text.Utf8

/-! The smallest parts of a JSON text: blanks, words, strings and numbers. Each
reader takes characters off the front and leaves the rest.

Strings and numbers come in two kinds. A part that is kept is decoded, so a
surrogate without its partner and a number beyond every float are refused. A part
that is skipped is only checked for its outline, and its numbers are refused, not
called unfinished, when the text ends inside them. -/
namespace SymbolAtlas.Json

/-- A reader takes a value off the front of a text, or reports the first problem. -/
abbrev Reader (α : Type) := List Char → Except Fault (α × List Char)

/-- The four blanks of JSON. -/
def isJsonBlank (c : Char) : Bool := c = ' ' || c = '\n' || c = '\t' || c = '\r'

/-- Drops blanks from the front. -/
def skipBlanks (text : List Char) : List Char := text.dropWhile isJsonBlank

/-- Reads exactly the characters of a word. -/
def word : List Char → List Char → Except Fault (List Char)
  | [], text => .ok text
  | _ :: _, [] => .error .truncated
  | expected :: more, c :: text => if c = expected then word more text else .error .malformed

/-! ### Strings -/

/-- The value of a hexadecimal digit of either case. -/
def hexValue? (c : Char) : Option Nat :=
  if '0' ≤ c ∧ c ≤ '9' then some (c.toNat - '0'.toNat)
  else if 'a' ≤ c ∧ c ≤ 'f' then some (c.toNat - 'a'.toNat + 10)
  else if 'A' ≤ c ∧ c ≤ 'F' then some (c.toNat - 'A'.toNat + 10)
  else none

/-- Four hexadecimal digits. The text counts as ended when fewer than four bytes
of it are left, whatever they are. -/
def fourHex : Reader Nat := fun text =>
  if (Utf8.encode (text.take 4)).length < 4 then .error .truncated
  else match text with
    | a :: b :: c :: d :: rest =>
      match hexValue? a, hexValue? b, hexValue? c, hexValue? d with
      | some a, some b, some c, some d => .ok (((a * 16 + b) * 16 + c) * 16 + d, rest)
      | _, _, _, _ => .error .malformed
    | _ => .error .malformed

/-- The character of a one-letter escape. -/
def simpleEscape? : Char → Option Char
  | '"' => some '"'
  | '\\' => some '\\'
  | '/' => some '/'
  | 'b' => some '\x08'
  | 'f' => some '\x0c'
  | 'n' => some '\n'
  | 'r' => some '\r'
  | 't' => some '\t'
  | _ => none

/-- The character named by two halves of a surrogate pair. -/
def fromSurrogates (high low : Nat) : Char :=
  Char.ofNat (0x10000 + (high - 0xD800) * 0x400 + (low - 0xDC00))

/-- The character of an escape, after the backslash. A high surrogate must be
followed by the escape of a low one; a low one alone names nothing. -/
def escape : Reader Char := fun text =>
  match text with
  | [] => .error .truncated
  | 'u' :: digits => do
    let (unit, rest) ← fourHex digits
    if 0xDC00 ≤ unit ∧ unit ≤ 0xDFFF then .error .malformed
    else if unit < 0xD800 ∨ 0xDBFF < unit then .ok (Char.ofNat unit, rest)
    else match rest with
      | [] => .error .truncated
      | ['\\'] => .error .truncated
      | '\\' :: 'u' :: more => do
        let (second, rest) ← fourHex more
        if 0xDC00 ≤ second ∧ second ≤ 0xDFFF then .ok (fromSurrogates unit second, rest)
        else .error .malformed
      | _ => .error .malformed
  | c :: rest =>
    match simpleEscape? c with
    | some d => .ok (d, rest)
    | none => .error .malformed

/-- The outline of an escape, after the backslash. -/
def skipEscape (text : List Char) : Except Fault (List Char) :=
  match text with
  | [] => .error .truncated
  | 'u' :: digits => (fourHex digits).map (·.2)
  | c :: rest => if (simpleEscape? c).isSome then .ok rest else .error .malformed

/-- The characters of a string up to its closing quote, in front of `done`, which
holds the characters read before in reverse. At most `steps` characters are read;
a text has no more steps than characters. -/
def stringBody : Nat → List Char → Reader String
  | 0, _, _ => .error .malformed
  | _ + 1, _, [] => .error .truncated
  | steps + 1, done, c :: rest =>
    if c = '"' then .ok (String.ofList done.reverse, rest)
    else if c = '\\' then do
      let (d, rest) ← escape rest
      stringBody steps (d :: done) rest
    else if c.toNat < 0x20 then .error .malformed
    else stringBody steps (c :: done) rest

/-- The outline of a string up to its closing quote. -/
def skipString : Nat → List Char → Except Fault (List Char)
  | 0, _ => .error .malformed
  | _ + 1, [] => .error .truncated
  | steps + 1, c :: rest =>
    if c = '"' then .ok rest
    else if c = '\\' then do
      let rest ← skipEscape rest
      skipString steps rest
    else if c.toNat < 0x20 then .error .malformed
    else skipString steps rest

/-! ### Numbers -/

/-- The largest significand that digits are gathered into. -/
def maxSignificand : Nat := UInt64.size - 1

/-- Appends digits to a significand for as long as it stays within its width, and
leaves the digits that no longer fit. -/
def gatherDigits (significand : Nat) : List Char → Nat × List Char
  | [] => (significand, [])
  | d :: rest =>
    let next := significand * 10 + (d.toNat - '0'.toNat)
    if next ≤ maxSignificand then gatherDigits next rest else (significand, d :: rest)

/-- A power of ten as a float. -/
def powerOfTen (n : Nat) : Float := Float.ofScientific 1 false n

/-- The largest power of ten that a float can hold. -/
def maxPower : Nat := 308

/-- Divides by a power of ten of any size, by the largest one first while the
quotient is not yet zero. -/
def divideByPower (x : Float) (n : Nat) : Float :=
  if n ≤ maxPower then x / powerOfTen n
  else if x == 0 then x
  else divideByPower (x / powerOfTen maxPower) (n - maxPower)
termination_by n
decreasing_by simp only [maxPower] at *; omega

/-- The float for a significand and a decimal exponent: the significand is
rounded, then multiplied or divided by a rounded power of ten. There is none for
a number beyond every float. -/
def scaleDecimal? (significand : Nat) (exponent : Int) : Option Float :=
  let x := significand.toUInt64.toFloat
  match exponent with
  | .ofNat n =>
    if n ≤ maxPower then
      let y := x * powerOfTen n
      if y.isInf then none else some y
    else if x == 0 then some x
    else none
  | .negSucc n => some (divideByPower x (n + 1))

/-- An integer within 64 bits, with or without a sign, or else the float. Minus
zero is a float, since an integer has no sign to keep. -/
def wholeNumber (negative : Bool) (significand : Nat) : Number :=
  if !negative then .integer significand
  else if significand = 0 ∨ UInt64.size / 2 < significand then
    .float (-significand.toUInt64.toFloat)
  else .integer (-(significand : Int))

/-- What is wrong where a digit must follow. -/
def missingDigit : List Char → Fault
  | [] => .truncated
  | _ :: _ => .malformed

/-- The sign of an exponent: whether it is negative, and what follows. -/
def exponentSign : List Char → Bool × List Char
  | '+' :: rest => (false, rest)
  | '-' :: rest => (true, rest)
  | rest => (false, rest)

/-- An optional exponent after the digits of a float. -/
def finishFloat (negative : Bool) (significand : Nat) (exponent : Int) : Reader Number :=
  fun text =>
  let scaled (exponent : Int) (rest : List Char) : Except Fault (Number × List Char) :=
    match scaleDecimal? significand exponent with
    | some x => .ok (.float (if negative then -x else x), rest)
    | none => .error .malformed
  match text with
  | 'e' :: more | 'E' :: more =>
    let (below, more) := exponentSign more
    let digits := more.takeWhile Char.isDigit
    let rest := more.dropWhile Char.isDigit
    if digits.isEmpty then .error (missingDigit rest)
    else
      let power : Int := Nat.ofDigitChars 10 digits 0
      scaled (if below then exponent - power else exponent + power) rest
  | _ => scaled exponent text

/-- A number after its sign. Digits beyond the width of the significand count
only for the exponent in the whole part, and not at all after the point. -/
def unsignedNumber (negative : Bool) : Reader Number := fun text =>
  let whole := text.takeWhile Char.isDigit
  let rest := text.dropWhile Char.isDigit
  match whole with
  | [] => .error (missingDigit rest)
  | '0' :: _ :: _ => .error .malformed
  | _ =>
    let (significand, lost) := gatherDigits 0 whole
    match rest with
    | '.' :: more =>
      let digits := more.takeWhile Char.isDigit
      let rest := more.dropWhile Char.isDigit
      if digits.isEmpty then .error (missingDigit rest)
      else
        let (significand, dropped) := gatherDigits significand digits
        finishFloat negative significand
          ((lost.length : Int) - ((digits.length - dropped.length : Nat) : Int)) rest
    | 'e' :: _ | 'E' :: _ => finishFloat negative significand lost.length rest
    | _ =>
      if lost.isEmpty then .ok (wholeNumber negative significand, rest)
      else finishFloat negative significand lost.length rest

/-- A number. -/
def number : Reader Number
  | '-' :: rest => unsignedNumber true rest
  | text => unsignedNumber false text

/-- The outline of an exponent, if there is one. -/
def skipExponent (text : List Char) : Except Fault (List Char) :=
  match text with
  | 'e' :: more | 'E' :: more =>
    let (_, more) := exponentSign more
    if (more.takeWhile Char.isDigit).isEmpty then .error .malformed
    else .ok (more.dropWhile Char.isDigit)
  | _ => .ok text

/-- The outline of a number after its sign. -/
def skipUnsigned (text : List Char) : Except Fault (List Char) :=
  match text.takeWhile Char.isDigit, text.dropWhile Char.isDigit with
  | [], _ => .error .malformed
  | '0' :: _ :: _, _ => .error .malformed
  | _, '.' :: more =>
    if (more.takeWhile Char.isDigit).isEmpty then .error .malformed
    else skipExponent (more.dropWhile Char.isDigit)
  | _, rest => skipExponent rest

/-- The outline of a number. -/
def skipNumber : List Char → Except Fault (List Char)
  | '-' :: rest => skipUnsigned rest
  | text => skipUnsigned text

end SymbolAtlas.Json
