/-! Two character classes decide whether a text can name a repository at all.
Both are classes of the Unicode standard, so they are given as its ranges and
not through the ASCII classes of the core library. -/
namespace SymbolAtlas.Text

/-- The property `White_Space`: the ASCII blanks, the next-line control, and
every space separator, line separator and paragraph separator. -/
def isBlank (c : Char) : Bool :=
  let n := c.toNat
  (0x09 ≤ n && n ≤ 0x0D) || n == 0x20 || n == 0x85 || n == 0xA0 || n == 0x1680 ||
    (0x2000 ≤ n && n ≤ 0x200A) || n == 0x2028 || n == 0x2029 || n == 0x202F ||
    n == 0x205F || n == 0x3000

/-- General category `Cc`: the two blocks of control codes and DEL. -/
def isControl (c : Char) : Bool :=
  let n := c.toNat
  n ≤ 0x1F || (0x7F ≤ n && n ≤ 0x9F)

end SymbolAtlas.Text
