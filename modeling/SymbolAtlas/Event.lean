import SymbolAtlas.Files.Fault

/-! What is worth a line in the log. An event says what happened; its level and
its wording follow from that. -/
namespace SymbolAtlas

/-- How much an event matters. -/
inductive Level where
  | debug
  | warn
  deriving DecidableEq, Repr

/-- Everything that is ever logged. -/
inductive Event where
  /-- A span names a file that is not there. Whether that is worth a warning is
  the caller's choice. -/
  | missingFile (level : Level) (path : String)
  | notRegular (path : String)
  | indexed (path : String) (charCount byteLength : UInt32)
  | spanFailed (path : String) (error : SpanError)
  | unitSkipped (unit : String)
  | grapherReplaced (unitType : String)
  | offsetsConverted (unit : String) (translated skipped failures : Nat)
  deriving DecidableEq, Repr

/-- Only a failed span always calls for a warning. -/
def Event.level : Event → Level
  | .missingFile level _ => level
  | .spanFailed _ _ => .warn
  | _ => .debug

/-- The wording, which does not depend on what the event carries. -/
def Event.message : Event → String
  | .missingFile _ _ => "file does not exist, leaving its offsets unchanged"
  | .notRegular _ => "not a regular file, leaving its offsets unchanged"
  | .indexed _ _ _ => "built position index"
  | .spanFailed _ _ =>
    "failed to convert codepoint offset to byte offset " ++
      "(did the grapher emit a nonexistent offset?), continuing anyway"
  | .unitSkipped _ => "skipping source unit"
  | .grapherReplaced _ => "replaced registered grapher"
  | .offsetsConverted _ _ _ _ => "converted codepoint offsets to byte offsets"

end SymbolAtlas
