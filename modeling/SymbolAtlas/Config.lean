/-! The two settings that a caller may change. -/
namespace SymbolAtlas

/-- Settings of a conversion of offsets. -/
structure ConversionConfig where
  /-- Whether a file that does not exist is worth a warning. It is logged either
  way, once for each file of a pass. -/
  warnMissingFiles : Bool := true
  deriving DecidableEq, Repr, Inhabited

/-- Settings of a normalization. -/
structure NormalizationConfig where
  /-- Whether the repositories that references point to are made canonical. -/
  canonicalizeRepos : Bool := true
  deriving DecidableEq, Repr, Inhabited

end SymbolAtlas
