import HyperCard.Archive.Error

/-!
# Settings for reading

How carefully a stack file is read. The usual settings accept whatever can be read at all.
-/
namespace HyperCard

/-- Settings for reading a stack file. -/
structure Configuration where
  /-- The greatest number of blocks in a chain. -/
  maxChainLength : Nat := 32768
  /-- Whether checksums must fit. -/
  verifyChecksums : Bool := false
  /-- Whether blocks once found are remembered. -/
  cacheBlocks : Bool := true
  deriving DecidableEq, Repr, Inhabited

/-- Settings that allow no chain at all are refused. -/
def Configuration.validate (configuration : Configuration) : Except ArchiveError Unit :=
  if configuration.maxChainLength = 0 then .error .zeroChainLimit else .ok ()

end HyperCard
