import SymbolAtlas.Json.Value
import SymbolAtlas.Decimal.Digits
import SymbolAtlas.Decimal.Shortest

/-! The text of a JSON value, on one line and without blanks. Strings escape only
what they must; floats are written with the fewest digits that read back. -/
namespace SymbolAtlas.Json

/-- What stands for one character inside a string: the quote, the backslash and
five controls have a short escape, other characters below the space are spelled
with four hexadecimal digits, and everything else stands for itself. -/
def escapedChar (c : Char) : List Char :=
  if c = '"' ∨ c = '\\' then ['\\', c]
  else if c = '\x08' then ['\\', 'b']
  else if c = '\x0c' then ['\\', 'f']
  else if c = '\n' then ['\\', 'n']
  else if c = '\r' then ['\\', 'r']
  else if c = '\t' then ['\\', 't']
  else if c.toNat < 0x20 then
    ['\\', 'u', '0', '0', Nat.digitChar (c.toNat / 16), Nat.digitChar (c.toNat % 16)]
  else [c]

/-- A string in quotes. -/
def stringText (s : String) : List Char :=
  '"' :: (s.toList.flatMap escapedChar ++ ['"'])

/-- Digits with a point after the first `whole` of them, filled up with zeros on
either side so that a digit stands before and after the point. -/
def positional (digits : List Char) (whole : Int) : List Char :=
  if whole ≤ 0 then '0' :: '.' :: (List.replicate (-whole).toNat '0' ++ digits)
  else if digits.length ≤ whole.toNat then
    digits ++ List.replicate (whole.toNat - digits.length) '0' ++ ['.', '0']
  else digits.take whole.toNat ++ '.' :: digits.drop whole.toNat

/-- Digits with a point after the first one, and a signed power of ten. -/
def scientific (digits : List Char) (power : Int) : List Char :=
  let mantissa := match digits with
    | [] => []
    | [only] => [only]
    | first :: rest => first :: '.' :: rest
  let sign := if power < 0 then '-' else '+'
  mantissa ++ 'e' :: sign :: Decimal.digits power.natAbs

/-- A float is positional from 0.00001 up to but not including 10^16, and always
has a point or an exponent there, which tells it from an integer. -/
def floatText (x : Float) : List Char :=
  let m := Decimal.Magnitude.ofFloat x
  let magnitude :=
    if m.significand = 0 then ['0', '.', '0']
    else
      let (significand, place) := Decimal.shortest m
      let digits := Decimal.digits significand
      let power := place + digits.length - 1
      if -5 ≤ power ∧ power < 16 then positional digits (power + 1)
      else scientific digits power
  if Decimal.isNegative x then '-' :: magnitude else magnitude

/-- The text of a number. -/
def Number.text : Number → List Char
  | .integer n => Decimal.signedDigits n
  | .float x => floatText x

mutual

/-- The text of a value. -/
def Value.chars : Value → List Char
  | .null => ['n', 'u', 'l', 'l']
  | .bool true => ['t', 'r', 'u', 'e']
  | .bool false => ['f', 'a', 'l', 's', 'e']
  | .number n => n.text
  | .string s => stringText s
  | .array items => '[' :: (itemChars items ++ [']'])
  | .object members => '\x7b' :: (memberChars members ++ ['\x7d'])

/-- The items of an array with commas between them. -/
def itemChars : List Value → List Char
  | [] => []
  | [only] => only.chars
  | first :: second :: rest => first.chars ++ ',' :: itemChars (second :: rest)

/-- The members of an object with commas between them. -/
def memberChars : List (String × Value) → List Char
  | [] => []
  | [(name, value)] => stringText name ++ ':' :: value.chars
  | (name, value) :: second :: rest =>
    stringText name ++ ':' :: (value.chars ++ ',' :: memberChars (second :: rest))

end

/-- The text of a value. -/
def Value.text (v : Value) : String := String.ofList v.chars

end SymbolAtlas.Json
