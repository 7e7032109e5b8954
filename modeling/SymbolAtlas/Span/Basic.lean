import SymbolAtlas.Json.Value

/-! What an analyzer reports about the files of a source unit: definitions of
symbols, references to them, and documentation attached to them. Each is a span,
an extent of one file with something said about it, and a batch holds all spans
of one run in three sequences. -/
namespace SymbolAtlas

/-- Where a span lies. The two positions count code points before the offsets are
converted and bytes afterwards; the extent is half open, and a position of zero
means that none is set. -/
structure Extent where
  /-- The name of the file, relative to the root of the checkout. -/
  file : String := ""
  start : UInt32 := 0
  stop : UInt32 := 0
  deriving DecidableEq, Repr, Inhabited

/-- What identifies a definition. An empty repository stands for the one that is
being analyzed. -/
structure SymbolKey where
  repo : String := ""
  unitType : String := ""
  unit : String := ""
  path : String := ""
  deriving DecidableEq, Repr, Inhabited

/-- A symbol defined at an extent. -/
structure Definition where
  key : SymbolKey := {}
  name : String := ""
  kind : String := ""
  extent : Extent := {}
  exported : Bool := false
  /-- The analyzer's own notes. Nothing here looks into them. -/
  data : Json.Value := .null
  deriving BEq, Repr, Inhabited

/-- A mention of a symbol, which may live in another repository. -/
structure Reference where
  target : SymbolKey := {}
  /-- Whether the extent is the site of the definition itself. -/
  isDefinition : Bool := false
  repo : String := ""
  unitType : String := ""
  unit : String := ""
  extent : Extent := {}
  deriving DecidableEq, Repr, Inhabited

/-- Documentation of a symbol. -/
structure Documentation where
  key : SymbolKey := {}
  /-- The media type of the text. -/
  format : String := ""
  text : String := ""
  extent : Extent := {}
  deriving DecidableEq, Repr, Inhabited

/-- All spans of one run, each kind in its own sequence. -/
structure Batch where
  definitions : List Definition := []
  references : List Reference := []
  documentation : List Documentation := []
  deriving BEq, Repr, Inhabited

/-- The number of spans of all kinds. -/
def Batch.size (b : Batch) : Nat :=
  b.definitions.length + b.references.length + b.documentation.length

/-- Whether there is no span of any kind. -/
def Batch.isEmpty (b : Batch) : Bool :=
  b.definitions.isEmpty && b.references.isEmpty && b.documentation.isEmpty

/-- A kind of span: it has an extent that can be looked at and replaced. The three
laws say that the extent is one part of the span among others. -/
class Spanned (α : Type) where
  extent : α → Extent
  withExtent : α → Extent → α
  extent_withExtent : ∀ a e, extent (withExtent a e) = e
  withExtent_extent : ∀ a, withExtent a (extent a) = a
  withExtent_withExtent : ∀ a e f, withExtent (withExtent a e) f = withExtent a f

instance : Spanned Definition where
  extent := Definition.extent
  withExtent d extent := { d with extent }
  extent_withExtent _ _ := rfl
  withExtent_extent _ := rfl
  withExtent_withExtent _ _ _ := rfl

instance : Spanned Reference where
  extent := Reference.extent
  withExtent r extent := { r with extent }
  extent_withExtent _ _ := rfl
  withExtent_extent _ := rfl
  withExtent_withExtent _ _ _ := rfl

instance : Spanned Documentation where
  extent := Documentation.extent
  withExtent d extent := { d with extent }
  extent_withExtent _ _ := rfl
  withExtent_extent _ := rfl
  withExtent_withExtent _ _ _ := rfl

end SymbolAtlas
