import HyperCard.Archive.TypeCode

/-!
# Errors of stack files

What can be wrong with a stack file, or with the settings it is read with, by cause.
-/
namespace HyperCard

/-- Contents of a block that contradict the format. -/
inductive Corruption
  /-- A user level outside the scale. -/
  | invalidUserLevel (level : Nat)
  /-- A record of a part that declares no bytes. -/
  | emptyPart (offset : Nat)
  /-- Entries of a page too small for what they hold. -/
  | cardReferenceTooSmall (size : Nat)
  /-- A chain of backgrounds with more links than the settings allow. -/
  | chainTooLong (limit : Nat)
  /-- A chain of backgrounds that comes back to one other than the first. -/
  | chainLoops (identifier first : Int)
  deriving DecidableEq, Repr

/-- The wording of a corruption. -/
def Corruption.message : Corruption → String
  | .invalidUserLevel level => "invalid user level " ++ toString level
  | .emptyPart offset => "empty part record at offset " ++ Hexadecimal.marked offset
  | .cardReferenceTooSmall size => "card reference size " ++ toString size ++ " is too small"
  | .chainTooLong limit => "background chain longer than " ++ toString limit ++ " blocks"
  | .chainLoops identifier first =>
    "background chain loops at " ++ toString identifier ++ " without returning to " ++
      toString first

/-- Why a stack file cannot be read. -/
inductive ArchiveError
  /-- The directory has no block with the key. -/
  | blockNotFound (tag : TypeCode) (identifier : Int)
  /-- The contents contradict the format. -/
  | corrupt (cause : Corruption)
  /-- A format number that no version has. -/
  | unsupportedFormat (format : Nat)
  /-- A stored checksum that does not fit the contents. -/
  | checksumMismatch (tag : TypeCode) (identifier : Int) (stored computed : UInt32)
  /-- Settings that allow no chain at all. -/
  | zeroChainLimit
  /-- A read outside the file or outside a block. -/
  | bounds (violation : ReadError)
  deriving DecidableEq, Repr

namespace ArchiveError

/-- The wording of the rule that settings must keep. -/
def chainLimitRule : String := "max_chain_length must be greater than 0"

/-- The wording of an error. -/
def message : ArchiveError → String
  | .blockNotFound tag identifier =>
    "block " ++ tag.text ++ " " ++ toString identifier ++ " not found"
  | .corrupt cause => "corrupt archive: " ++ cause.message
  | .unsupportedFormat format => "unsupported stack format: " ++ toString format
  | .checksumMismatch tag identifier stored computed =>
    "checksum mismatch in " ++ tag.text ++ " " ++ toString identifier ++ ": stored " ++
      Hexadecimal.word stored.toNat ++ ", computed " ++ Hexadecimal.word computed.toNat
  | .zeroChainLimit => "invalid configuration: " ++ chainLimitRule
  | .bounds violation => "bounds violation: " ++ violation.message

/-- Whether the file contradicts the format. -/
def isFormatError : ArchiveError → Bool
  | .blockNotFound _ _ | .corrupt _ | .unsupportedFormat _ | .checksumMismatch _ _ _ _ => true
  | .zeroChainLimit | .bounds _ => false

/-- Whether a read left its window. -/
def isBoundsViolation : ArchiveError → Bool
  | .bounds _ => true
  | _ => false

end ArchiveError

/-- A read outside a window is an error of the file. -/
instance : MonadLift (Except ReadError) (Except ArchiveError) := ⟨Except.mapError .bounds⟩

end HyperCard
