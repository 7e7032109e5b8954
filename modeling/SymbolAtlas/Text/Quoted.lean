import SymbolAtlas.Decimal.Digits
import SymbolAtlas.Text.Unprintable

/-! A quoted text stands between two delimiters on one line. The delimiter and
the backslash get a backslash, four controls have a letter of their own, and
every other character that does not show as itself is spelled by its number in
hexadecimal. -/
namespace SymbolAtlas.Text

/-- A character spelled by its number, in lower-case hexadecimal. -/
def spelledByNumber (c : Char) : List Char :=
  '\\' :: 'u' :: '\x7b' :: (Nat.toDigits 16 c.toNat ++ ['\x7d'])

/-- What stands for one character between two delimiters. -/
def quotedChar (p : Printability) (delimiter c : Char) : List Char :=
  if c = delimiter ∨ c = '\\' then ['\\', c]
  else if c = '\x00' then ['\\', '0']
  else if c = '\t' then ['\\', 't']
  else if c = '\n' then ['\\', 'n']
  else if c = '\r' then ['\\', 'r']
  else if p.hides c then spelledByNumber c
  else [c]

/-- What stands for a text between two delimiters: each character is written by
itself, whatever its neighbours are. -/
def quotedBody (p : Printability) (delimiter : Char) (text : List Char) : List Char :=
  text.flatMap (quotedChar p delimiter)

/-- A text in double quotes, by a choice of what is spelled by its number. -/
def quotedBy (p : Printability) (text : String) : String :=
  String.ofList ('"' :: (quotedBody p '"' text.toList ++ ['"']))

/-- A text in double quotes. -/
def quoted (text : String) : String := quotedBy .standard text

/-- A single character in single quotes. -/
def quotedSingle (c : Char) : String :=
  String.ofList ('\'' :: (quotedChar .standard '\'' c ++ ['\'']))

theorem quotedBody_cons (p : Printability) (delimiter c : Char) (text : List Char) :
    quotedBody p delimiter (c :: text) =
      quotedChar p delimiter c ++ quotedBody p delimiter text := by
  simp [quotedBody]

end SymbolAtlas.Text
