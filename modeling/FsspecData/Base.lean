import FsspecData.Arrow.DataType
import Mathlib.Algebra.Group.Nat.Defs
import Mathlib.Algebra.Group.Int.Defs

/-! What every part of the interchange core shares: the machine word and the errors.
Types appear in an error as themselves; the source renders them with `Debug`. -/
namespace FsspecData

/-- The largest `usize` of a 64-bit target. -/
def usizeMax : Nat := 2 ^ 64 - 1

/-- An error of the Arrow libraries, of which only the message is passed on. -/
structure ArrowError where
  message : String
  deriving DecidableEq, Repr

inductive InterchangeError where
  | fieldCount (provided requested : Nat)
  | fieldName (index : Nat) (provided requested : String)
  | missingField (field : String)
  | ambiguousField (field : String)
  | typeMismatch (field : String) (provided requested : DataType)
  | nullability (field : String)
  | castUnsafe (field : String) (provided requested : DataType)
  | unsupportedCast (field : String) (provided requested : DataType)
  | runtimeNullability (field : String)
  | exactNullability (field : String) (provided requested : Bool)
  | exactOperations
  | missingProvidedField (field : String)
  | renameDropConflict (field : String)
  | unknownRequestedField (operation field : String)
  | defaultConflict (field : String)
  | unmappedField (field : String)
  | defaultLength (field : String)
  | nullDefault (field : String)
  | defaultCast (field : String) (requested : DataType) (source : ArrowError)
  | castNotAllowed (field cast allowed : String)
  | inputSchema
  | invalidBatchSize
  | streamCancelled
  | byteLimitExceeded (limit attempted : Nat)
  | arrow (source : ArrowError)
  deriving DecidableEq, Repr

end FsspecData
