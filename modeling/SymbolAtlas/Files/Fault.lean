import SymbolAtlas.Decimal.Digits

/-! Why the offsets of one span could not be converted. None of these ends a pass:
the span is reported and the next one is looked at. -/
namespace SymbolAtlas

/-- Why a file that may exist could not be looked at or read. -/
inductive AccessFault where
  /-- More symbolic links had to be followed than are allowed. -/
  | linkLoop
  /-- A name or the whole path is longer than is allowed. -/
  | nameTooLong
  /-- A NUL cannot be part of a path, so the file system is not even asked. -/
  | nulInPath
  /-- Any other failure, with the kind and the text that it is reported by. -/
  | other (kind text : String)
  deriving DecidableEq, Repr

/-- The text of the operating system for the fault. -/
def AccessFault.text : AccessFault → String
  | .linkLoop => "Too many levels of symbolic links (os error 40)"
  | .nameTooLong => "File name too long (os error 36)"
  | .nulInPath => "file name contained an unexpected NUL byte"
  | .other _ text => text

/-- Why a span keeps offsets that were to be converted. -/
inductive SpanError where
  | unreadable (fault : AccessFault)
  /-- The file has more bytes than an offset can count. -/
  | tooLarge (length : Nat)
  /-- The offset lies beyond the last code point. -/
  | outOfRange (offset charCount : UInt32)
  deriving DecidableEq, Repr

/-- What the log and the report say about the span. -/
def SpanError.message : SpanError → String
  | .unreadable fault => "read failed: " ++ fault.text
  | .tooLarge length =>
    "file of " ++ String.ofList (Decimal.digits length) ++ " bytes is too large for u32 offsets"
  | .outOfRange offset charCount =>
    "codepoint offset " ++ String.ofList (Decimal.digits offset.toNat) ++
      " is past the end of the file (" ++ String.ofList (Decimal.digits charCount.toNat) ++
      " codepoints)"

end SymbolAtlas
