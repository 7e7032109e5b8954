import SymbolAtlas.Files.Fault
import SymbolAtlas.Text.Utf8

/-! The index of a file answers at which byte its code points begin. Only code
points of more than one byte are recorded, each with the number of bytes that all
of them so far have beyond one: a file of ASCII has an empty table, and the byte
of any code point is its ordinal plus the surplus of the wide ones before it. -/
namespace SymbolAtlas

/-- Where the code points of one file begin. -/
structure PositionIndex where
  /-- Ordinal and accumulated surplus of each wide code point, in order. -/
  wide : Array (UInt32 × UInt32)
  charCount : UInt32
  byteLength : UInt32
  deriving DecidableEq, Repr

namespace PositionIndex

/-- An index under construction: what has been recorded, and both counters. -/
structure Builder where
  wide : Array (UInt32 × UInt32) := #[]
  ordinal : UInt32 := 0
  surplus : UInt32 := 0
  deriving DecidableEq, Repr

/-- Takes one piece of the file into account. Every byte of an ill-formed piece is
a code point of one byte. -/
def Builder.add (b : Builder) : Utf8.Piece → Builder
  | .scalar width =>
    if width > 1 then
      let surplus := b.surplus + (width.toUInt32 - 1)
      { wide := b.wide.push (b.ordinal, surplus), ordinal := b.ordinal + 1, surplus }
    else { b with ordinal := b.ordinal + 1 }
  | .illFormed length => { b with ordinal := b.ordinal + length.toUInt32 }

/-- The index of a file, unless it is too large for its offsets. -/
def ofContent (content : List UInt8) : Except SpanError PositionIndex :=
  let length := content.length
  if length < UInt32.size then
    let done := Utf8.foldPieces Builder.add 0 content {}
    .ok { wide := done.wide, charCount := done.ordinal, byteLength := length.toUInt32 }
  else .error (.tooLarge length)

/-- How many entries between `low` and `high` have an ordinal below the given one,
counted from the front of the table, by halving the range. -/
def countBelow (wide : Array (UInt32 × UInt32)) (ordinal : UInt32) (low high : Nat) : Nat :=
  if low < high then
    let middle := (low + high) / 2
    match wide[middle]? with
    | some (entry, _) =>
      if entry < ordinal then countBelow wide ordinal (middle + 1) high
      else countBelow wide ordinal low middle
    | none => low
  else low
termination_by high - low
decreasing_by all_goals omega

/-- The byte at which a code point begins. The ordinal after the last code point
is the end of the file; every later one is out of range. -/
def byteOffset (index : PositionIndex) (ordinal : UInt32) : Except SpanError UInt32 :=
  if index.charCount < ordinal then .error (.outOfRange ordinal index.charCount)
  else
    let surplus := match countBelow index.wide ordinal 0 index.wide.size with
      | 0 => 0
      | preceding + 1 => (index.wide[preceding]?.map (·.2)).getD 0
    .ok (ordinal + surplus)

end PositionIndex
end SymbolAtlas
