import SymbolAtlas.Decimal.Digits
import SymbolAtlas.Span.Basic
import SymbolAtlas.Text.Quoted

/-! The listing of a batch shows one span a line, in the order of the batch, so
that two runs can be compared line by line. -/
namespace SymbolAtlas

/-- A position in decimal. -/
def positionText (n : UInt32) : String := String.ofList (Decimal.digits n.toNat)

/-- The file, then both positions in brackets. -/
def Extent.listing (e : Extent) : String :=
  e.file ++ " [" ++ positionText e.start ++ ".." ++ positionText e.stop ++ "]"

/-- The four parts with colons between them. A dot stands for the repository that
is being analyzed. -/
def SymbolKey.listing (k : SymbolKey) : String :=
  (if k.repo = "" then "." else k.repo) ++ ":" ++ k.unitType ++ ":" ++ k.unit ++ ":" ++ k.path

/-- The kind is shown only where there is one, and visibility only where it is
public. -/
def Definition.listing (d : Definition) : String :=
  "def " ++ d.extent.listing ++ " " ++ d.key.listing ++ " name=" ++ d.name ++
    (if d.kind = "" then "" else " kind=" ++ d.kind) ++
    (if d.exported then " exported" else "")

/-- Where the mention is, and what it points to. The unit that it occurs in is not shown. -/
def Reference.listing (r : Reference) : String :=
  "ref " ++ r.extent.listing ++ " -> " ++ r.target.listing ++
    (if r.isDefinition then " (def)" else "")

/-- The text is quoted, so that it stays on its line. What is spelled by its number in
it is a choice. -/
def Documentation.listingBy (p : Text.Printability) (d : Documentation) : String :=
  "doc " ++ d.extent.listing ++ " " ++ d.key.listing ++ " " ++ d.format ++ " " ++
    Text.quotedBy p d.text

/-- The line of a documentation, by the standard choice. -/
def Documentation.listing (d : Documentation) : String := d.listingBy .standard

/-- The lines of a batch: definitions, then references, then documentation. -/
def Batch.lines (b : Batch) : List String :=
  b.definitions.map Definition.listing ++ b.references.map Reference.listing ++
    b.documentation.map Documentation.listing

/-- The lines, each ended by a newline. -/
def Batch.listing (b : Batch) : String := String.join (b.lines.map (· ++ "\n"))

theorem Batch.length_lines (b : Batch) : b.lines.length = b.size := by
  simp [lines, size, Nat.add_assoc]

end SymbolAtlas
