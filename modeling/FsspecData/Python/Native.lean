import FsspecData.Python.FileSystem
import FsspecData.Codec.Registry
import FsspecData.Stream.Decoded

/-! The engine of a conversion on the Rust codecs. The format libraries stay parameters; a
writer stands beside the bytes it has given to a file that takes them all. -/
namespace FsspecData.Python

open Codec Fallible

/-- The format libraries. `read` is a library's reader with the decoded stream over it: the
reader's schema, and the items the stream yields; `importBatch` takes a batch over to
arrow-rs. -/
structure Natives where
  Writer : DataFormat → Type
  writers : (format : DataFormat) → WriterLibrary (Writer format)
  read : DataFormat → List UInt8 → Option Schema → StreamOptions →
    Except CodecError (Schema × List (Item FsspecData.RecordBatch))
  importBatch : RecordBatch → Except FileSystemError FsspecData.RecordBatch

/-- The text of an error. -/
def codecErrorText : CodecError → String
  | .unknownFormat format => "unknown data format: " ++ format
  | .codecNotRegistered format => "no codec is registered for format: " ++ format
  | .codecWriterNotSupported format => "codec does not support resumable encoding: " ++ format
  | .decodeSchemaRequired format => "decoding " ++ format ++ " requires an Arrow schema"
  | .unsupportedPolicy policy => "schema policy is not implemented: " ++ policy
  | .io error => error.message
  | .parquet (.general message) => "Parquet error: " ++ message
  | .parquet (.external source) => "External: " ++ source.message
  | .interchange _ => ""

def nativeError : CodecError → FileSystemError
  | .interchange error => .interchange error
  | error => .outside (codecErrorText error)

/-- A Python integer as an argument of type `usize`. -/
def toUsize (n : Int) : Except FileSystemError { m : Nat // m ≤ usizeMax } :=
  if n < 0 then .error (.outside "can't convert negative int to unsigned")
  else if fits : n.toNat ≤ usizeMax then .ok ⟨n.toNat, fits⟩
  else .error (.outside "int too big to convert")

def Limits.options (limits : Limits) : Except FileSystemError StreamOptions := do
  let batchSize ← toUsize limits.batchSize
  let rowLimit ← limits.rowLimit.mapM toUsize
  let byteLimit ← limits.byteLimit.mapM toUsize
  .ok ⟨batchSize.1, rowLimit.map (·.1), byteLimit.map (·.1), batchSize.2,
    fun _ same => by obtain ⟨limit, -, rfl⟩ := Option.map_eq_some_iff.mp same; exact limit.2,
    fun _ same => by obtain ⟨limit, -, rfl⟩ := Option.map_eq_some_iff.mp same; exact limit.2⟩

namespace Natives

variable (natives : Natives)

/-- A writer of some format, with the bytes written so far. -/
structure Started where
  format : DataFormat
  writer : CodecWriter (natives.Writer format)
  bytes : List UInt8

def iterBatches (format : DataFormat) (data : List UInt8) (schema : Option Schema) (limits : Limits) :
    Except FileSystemError Decoded := do
  let options ← limits.options
  let codec ← (named format.asStr).mapError nativeError
  let (schema, items) ← (codec.decodeReader (natives.read format data · options) schema).mapError nativeError
  .ok ⟨schema, items.map fun item => (item.map RecordBatch.ofRust).mapError .interchange⟩

def startWriter (format : DataFormat) (schema : Schema) : Except FileSystemError natives.Started := do
  let _ ← (named format.asStr).mapError nativeError
  let started := Codec.startWriter (natives.writers format) schema
  let writer ← started.value.mapError nativeError
  .ok ⟨format, writer, started.output⟩

def writeBatch (started : natives.Started) (batch : RecordBatch) : Except FileSystemError natives.Started := do
  let codec ← (named started.format.asStr).mapError nativeError
  let batch ← natives.importBatch batch
  let written := codec.writeBatch (natives.writers started.format) started.writer batch
  let _ ← written.value.1.mapError nativeError
  .ok ⟨started.format, written.value.2, started.bytes ++ written.output⟩

def finish (started : natives.Started) : Except FileSystemError (List UInt8) := do
  let codec ← (named started.format.asStr).mapError nativeError
  let finished := codec.finish (natives.writers started.format) started.writer
  let _ ← finished.value.mapError nativeError
  .ok (started.bytes ++ finished.output)

/-- `_rust.encode_batches`, which takes all batches over first. -/
def encodeBatches (format : DataFormat) (schema : Schema) (batches : List RecordBatch) :
    Except FileSystemError (List UInt8) := do
  let codec ← (named format.asStr).mapError nativeError
  let batches ← batches.mapM natives.importBatch
  match codec.encode (natives.writers format) schema batches with
  | some result => result.mapError nativeError
  | none => .error (.outside "")

end Natives

end FsspecData.Python
