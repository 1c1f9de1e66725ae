import FsspecData.Plan.Planner
import FsspecData.Codec.SharedReader

/-! The formats, the errors that only codecs raise, and the exceptions Python sees. -/
namespace FsspecData

def DataFormat.asStr : DataFormat → String
  | .arrow => "arrow"
  | .parquet => "parquet"
  | .csv => "csv"
  | .jsonLines => "jsonl"
  | .avro => "avro"

namespace Codec

inductive CodecError where
  | unknownFormat (format : String)
  | codecNotRegistered (format : String)
  | codecWriterNotSupported (format : String)
  | decodeSchemaRequired (format : String)
  | unsupportedPolicy (policy : String)
  | io (error : IoError)
  | parquet (error : ParquetError)
  | interchange (error : InterchangeError)
  deriving DecidableEq

def parseFormat (value : String) : Except CodecError DataFormat :=
  match value with
  | "arrow" => .ok .arrow
  | "parquet" => .ok .parquet
  | "csv" => .ok .csv
  | "jsonl" => .ok .jsonLines
  | "avro" => .ok .avro
  | _ => .error (.unknownFormat value)

theorem parseFormat_asStr (format : DataFormat) : parseFormat format.asStr = .ok format := by
  cases format <;> rfl

/-- The errors of the format libraries. -/
inductive LibraryError where
  | arrow (source : ArrowError)
  | parquet (source : ParquetError)
  deriving DecidableEq

/-- The conversion behind `?`. -/
def CodecError.ofLibrary : LibraryError → CodecError
  | .arrow source => .interchange (.arrow source)
  | .parquet source => .parquet source

inductive PyClass where
  | notImplementedError | runtimeError | osError | valueError
  deriving DecidableEq

/-- An exception that the extension module raises; its text is that of the error. -/
inductive PyError where
  | native (raised : PyClass) (error : CodecError)
  | writerFinished
  deriving DecidableEq

def toPythonError (error : CodecError) : PyError :=
  match error with
  | .unsupportedPolicy _ | .codecNotRegistered _ | .codecWriterNotSupported _ => .native .notImplementedError error
  | .interchange .streamCancelled => .native .runtimeError error
  | .io _ => .native .osError error
  | _ => .native .valueError error

/-! Python objects at the other side. -/

/-- An exception that a Python object raises, by its text. -/
structure PyErr where
  text : String

def pythonIoError (error : PyErr) : IoError := ⟨.other, error.text⟩

/-- Values of Python, as far as the extension module converts them. -/
class PyAny (V : Type) where
  extractUsize : V → Except PyErr Nat
  extractU64 : V → Except PyErr UInt64
  castBytes : V → Except PyErr (List UInt8)

end Codec

end FsspecData
