import SymbolAtlas.Json.Writer
import SymbolAtlas.Text.Quoted

/-! What can be wrong with a text that is read as a record: it is not JSON, it
ends early, or it is JSON of another shape than the record has. The text is read
from the left and the first problem is the one that is reported. -/
namespace SymbolAtlas.Json

/-- What stands where something else was expected. Of a sequence and a map only
the opening bracket has been seen. -/
inductive Found where
  | null
  | bool (b : Bool)
  | number (n : Number)
  | string (s : String)
  | sequence
  | map
  deriving DecidableEq, Repr

/-- How well-formed JSON differs from the record it is read as. -/
inductive Misfit where
  | wrongType (found : Found) (expected : String)
  /-- An integer that the expected width cannot hold. -/
  | outOfRange (n : Int) (expected : String)
  | repeatedField (name : String)
  deriving DecidableEq, Repr

/-- Why a text is not read. -/
inductive Fault where
  | malformed
  | truncated
  | misfit (cause : Misfit)
  deriving DecidableEq, Repr

/-- A name or a number as a message shows it. -/
def inMarks (text : String) : String := "\x60" ++ text ++ "\x60"

/-- A value is shown with its kind, a bracket by its kind alone. -/
def Found.text : Found → String
  | .null => "null"
  | .bool b => "boolean " ++ inMarks (if b then "true" else "false")
  | .number (.integer n) => "integer " ++ inMarks (String.ofList (Decimal.signedDigits n))
  | .number (.float x) => "floating point " ++ inMarks (String.ofList (floatText x))
  | .string s => "string " ++ Text.quoted s
  | .sequence => "sequence"
  | .map => "map"

/-- The message that a caller sees. -/
def Misfit.message : Misfit → String
  | .wrongType found expected => "invalid type: " ++ found.text ++ ", expected " ++ expected
  | .outOfRange n expected =>
    "invalid value: integer " ++ inMarks (String.ofList (Decimal.signedDigits n)) ++
      ", expected " ++ expected
  | .repeatedField name => "duplicate field " ++ inMarks name

/-- What a value is, seen from a place that expects something else. -/
def Value.found : Value → Found
  | .null => .null
  | .bool b => .bool b
  | .number n => .number n
  | .string s => .string s
  | .array _ => .sequence
  | .object _ => .map

end SymbolAtlas.Json
