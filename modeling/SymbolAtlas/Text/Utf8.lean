/-! How bytes of any kind are divided into code points. Well-formed UTF-8 is
divided into its sequences. Bytes that belong to no sequence are passed over as
long as they could have begun one, and each of them counts as a code point of its
own width, so every string of bytes is divided. -/
namespace SymbolAtlas.Utf8

/-- What a scan finds at one place. -/
inductive Piece where
  /-- A well-formed sequence of this many bytes. -/
  | scalar (width : Nat)
  /-- This many bytes that begin a sequence but do not finish it. -/
  | illFormed (length : Nat)
  deriving DecidableEq, Repr

/-- How many bytes a piece takes. -/
def Piece.length : Piece → Nat
  | .scalar width => width
  | .illFormed length => length

/-- What a lead byte asks for: the width of the sequence, and the range of the
second byte. The range excludes longer forms of short sequences, surrogates, and
numbers beyond the last code point. -/
structure Lead where
  width : Nat
  low : UInt8
  high : UInt8

/-- The lead bytes of sequences of more than one byte. -/
def lead? (b : UInt8) : Option Lead :=
  if 0xC2 ≤ b ∧ b ≤ 0xDF then some ⟨2, 0x80, 0xBF⟩
  else if b = 0xE0 then some ⟨3, 0xA0, 0xBF⟩
  else if b = 0xED then some ⟨3, 0x80, 0x9F⟩
  else if 0xE1 ≤ b ∧ b ≤ 0xEF then some ⟨3, 0x80, 0xBF⟩
  else if b = 0xF0 then some ⟨4, 0x90, 0xBF⟩
  else if 0xF1 ≤ b ∧ b ≤ 0xF3 then some ⟨4, 0x80, 0xBF⟩
  else if b = 0xF4 then some ⟨4, 0x80, 0x8F⟩
  else none

/-- A byte that continues a sequence. -/
def isTail (b : UInt8) : Bool := 0x80 ≤ b && b ≤ 0xBF

/-- The piece that begins with the byte `b`, with `rest` after it. -/
def scan (b : UInt8) (rest : List UInt8) : Piece :=
  if b < 0x80 then .scalar 1
  else match lead? b, rest with
    | some lead, second :: more =>
      if lead.low ≤ second ∧ second ≤ lead.high then
        let tails := ((more.take (lead.width - 2)).takeWhile isTail).length
        if tails = lead.width - 2 then .scalar lead.width else .illFormed (2 + tails)
      else .illFormed 1
    | _, _ => .illFormed 1

/-- Runs through the pieces of a string of bytes from left to right. The first
`skip` bytes belong to a piece that has been seen already. -/
def foldPieces {σ : Type} (step : σ → Piece → σ) : Nat → List UInt8 → σ → σ
  | _, [], state => state
  | skip + 1, _ :: rest, state => foldPieces step skip rest state
  | 0, b :: rest, state =>
    let piece := scan b rest
    foldPieces step (piece.length - 1) rest (step state piece)

/-- The pieces of a string of bytes, of which the first `skip` bytes are seen. -/
def pieces : Nat → List UInt8 → List Piece
  | _, [] => []
  | skip + 1, _ :: rest => pieces skip rest
  | 0, b :: rest => scan b rest :: pieces ((scan b rest).length - 1) rest

/-- Running through the pieces is folding over their list. -/
theorem foldPieces_eq_foldl {σ : Type} (step : σ → Piece → σ) (skip : Nat)
    (bytes : List UInt8) (state : σ) :
    foldPieces step skip bytes state = (pieces skip bytes).foldl step state := by
  induction bytes generalizing skip state with
  | nil => cases skip <;> rfl
  | cons b rest ih =>
    cases skip with
    | zero => exact ih _ _
    | succ skip => exact ih _ _

/-- The bytes of a text. -/
def encode (text : List Char) : List UInt8 := text.flatMap String.utf8EncodeChar

end SymbolAtlas.Utf8
