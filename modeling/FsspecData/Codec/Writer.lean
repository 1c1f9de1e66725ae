import FsspecData.Codec.Sink
import FsspecData.Arrow.RecordBatch
import FsspecData.Library.Machine

/-! Encoding. A codec drives the writer of its format's library, which is a parameter: what
it writes goes to the sink, and what it keeps in between is its own state. -/
namespace FsspecData

structure CodecCapabilities where
  encode : Bool
  decode : Bool
  streaming : Bool

/-- What the codecs differ in. -/
structure Codec where
  format : DataFormat
  capabilities : CodecCapabilities
  /-- The library's writer is flushed after each batch. -/
  flushes : Bool
  /-- Finishing calls the library's `finish`, and does not only drop the writer. -/
  finishes : Bool
  /-- Decoding needs a schema, and is not told one by the data. -/
  needsSchema : Bool

namespace Codec

open Output Machine

/-- A program over a byte sink. -/
abbrev Writing (A : Type) := Program UInt8 IoError A

/-- The library's writer of one format. Dropping it may write too, as a buffer does. -/
structure WriterLibrary (W : Type) where
  create : Schema → Writing (Except LibraryError W)
  write : W → RecordBatch → Writing (Except LibraryError Unit × W)
  flush : W → Writing (Except LibraryError Unit × W)
  finish : W → Writing (Except LibraryError Unit × W)
  drop : W → Writing Unit

def ArrowIpcCodec : Codec := ⟨.arrow, ⟨true, true, true⟩, true, true, false⟩

def ParquetCodec : Codec := ⟨.parquet, ⟨true, true, true⟩, true, true, false⟩

def CsvCodec : Codec := ⟨.csv, ⟨true, true, true⟩, false, false, true⟩

def JsonLinesCodec : Codec := ⟨.jsonLines, ⟨true, true, true⟩, false, true, true⟩

def AvroCodec : Codec := ⟨.avro, ⟨true, true, true⟩, false, true, false⟩

structure CodecWriter (W : Type) where
  schema : Schema
  writer : W

def validateBatch (schema : Schema) (batch : RecordBatch) : Except CodecError Unit :=
  if batch.schema ≠ schema then .error (.interchange .inputSchema) else .ok ()

variable {W : Type}

section Encode

variable (codec : Codec) (library : WriterLibrary W)

/-- `start_writer`, and `start_owned_writer`, which only owns its sink besides. -/
def startWriter (schema : Schema) : Writing (Except CodecError (CodecWriter W)) := do
  match ← library.create schema with
  | .ok writer => return .ok ⟨schema, writer⟩
  | .error source => return .error (.ofLibrary source)

def writeBatch (self : CodecWriter W) (batch : RecordBatch) : Writing (Except CodecError Unit × CodecWriter W) :=
  match validateBatch self.schema batch with
  | .error error => return (.error error, self)
  | .ok _ => do
    match ← library.write self.writer batch with
    | (.error source, writer) => return (.error (.ofLibrary source), ⟨self.schema, writer⟩)
    | (.ok _, writer) =>
      if codec.flushes then
        let (flushed, writer) ← library.flush writer
        return (flushed.mapError .ofLibrary, ⟨self.schema, writer⟩)
      else return (.ok (), ⟨self.schema, writer⟩)

/-- Finishing consumes the writer. -/
def finish (self : CodecWriter W) : Writing (Except CodecError Unit) := do
  if codec.finishes then
    let (finished, writer) ← library.finish self.writer
    library.drop writer
    return finished.mapError .ofLibrary
  else
    library.drop self.writer
    return .ok ()

/-- The loop of `encode_stream`. -/
def writeBatches : List (Except CodecError RecordBatch) → CodecWriter W →
    Writing (Except CodecError Unit × CodecWriter W)
  | [], writer => return (.ok (), writer)
  | .error error :: _, writer => return (.error error, writer)
  | .ok batch :: batches, writer => do
    match ← codec.writeBatch library writer batch with
    | (.error error, writer) => return (.error error, writer)
    | (.ok _, writer) => writeBatches batches writer

/-- An early return drops the writer. -/
def encodeStream (schema : Schema) (batches : List (Except CodecError RecordBatch)) :
    Writing (Except CodecError Unit) := do
  match ← startWriter library schema with
  | .error error => return .error error
  | .ok writer =>
    match ← codec.writeBatches library batches writer with
    | (.error error, writer) =>
      library.drop writer.writer
      return .error error
    | (.ok _, writer) => codec.finish library writer

/-- Encoding to a vector. -/
def encode (schema : Schema) (batches : List RecordBatch) : Option (Except CodecError (List UInt8)) :=
  match (codec.encodeStream library schema (batches.map .ok)).run (sink (List UInt8)) 1 [] with
  | some (.returned result, output) => some (result.map fun _ => output)
  | _ => none

end Encode

/-! A vector gives every program its own value and output. -/

theorem writeAll_vec (fuel : Nat) (s buffer : List UInt8) :
    writeAll (fuel + 1) s buffer = some (.returned (.ok ()), s ++ buffer) := by
  cases buffer with
  | nil => simp [writeAll]
  | cons byte rest => simp [writeAll, Write.write]

theorem run_vec {A : Type} (program : Writing A) (fuel : Nat) (s : List UInt8) :
    program.run (sink (List UInt8)) (fuel + 1) s = some (.returned program.value, s ++ program.output) := by
  induction program generalizing s with
  | pure a => simp [Program.run, Program.value, Program.output]
  | writeAll part next ih =>
    have whole : (sink (List UInt8)).writeAll (fuel + 1) s part = some (.returned (.ok ()), s ++ part) :=
      writeAll_vec fuel s part
    simp only [Program.run, whole, ih, List.append_assoc]
    rfl
  | flush next ih => exact ih (.ok ()) s

theorem encode_eq (codec : Codec) (library : WriterLibrary W) (schema : Schema) (batches : List RecordBatch) :
    codec.encode library schema batches =
      some ((codec.encodeStream library schema (batches.map .ok)).value.map
        fun _ => (codec.encodeStream library schema (batches.map .ok)).output) := by
  simp [encode, run_vec]

section Encoded

variable (codec : Codec) (library : WriterLibrary W)

/-- A writer keeps its schema. -/
theorem writeBatch_schema (writer : CodecWriter W) (batch : RecordBatch) :
    (codec.writeBatch library writer batch).value.2.schema = writer.schema := by
  unfold Codec.writeBatch
  cases validateBatch writer.schema batch with
  | error error => rfl
  | ok _ =>
    simp only [Program.value_bind]
    split
    next => rfl
    next => split <;> simp

/-- From a started writer on, the batches are encoded to these bytes. -/
def Encodes (writer : CodecWriter W) (batches : List RecordBatch) (bytes : List UInt8) : Prop :=
  ∃ written, (codec.writeBatches library (batches.map .ok) writer).value = (.ok (), written) ∧
    (codec.finish library written).value = .ok () ∧
    bytes = (codec.writeBatches library (batches.map .ok) writer).output ++ (codec.finish library written).output

theorem encodes_nil (writer : CodecWriter W) (bytes : List UInt8) : Encodes codec library writer [] bytes ↔
    (codec.finish library writer).value = .ok () ∧ bytes = (codec.finish library writer).output := by
  simp [Encodes, writeBatches]

theorem encodes_cons {writer written : CodecWriter W} {batch : RecordBatch} (batches : List RecordBatch)
    (bytes : List UInt8) (wrote : (codec.writeBatch library writer batch).value = (.ok (), written)) :
    Encodes codec library writer (batch :: batches) bytes ↔ ∃ rest, Encodes codec library written batches rest ∧
      bytes = (codec.writeBatch library writer batch).output ++ rest := by
  simp only [Encodes, List.map_cons, writeBatches, Program.value_bind, Program.output_bind, wrote, List.append_assoc]
  constructor
  · rintro ⟨last, all, done, rfl⟩
    exact ⟨_, ⟨last, all, done, rfl⟩, rfl⟩
  · rintro ⟨_, ⟨last, all, done, rfl⟩, rfl⟩
    exact ⟨last, all, done, rfl⟩

theorem not_encodes_cons {writer : CodecWriter W} {batch : RecordBatch} (batches : List RecordBatch)
    (bytes : List UInt8) {error : CodecError}
    (failed : (codec.writeBatch library writer batch).value.1 = .error error) :
    ¬Encodes codec library writer (batch :: batches) bytes := by
  rintro ⟨last, all, -⟩
  obtain ⟨after, value⟩ : ∃ after, (codec.writeBatch library writer batch).value = (.error error, after) :=
    ⟨_, Prod.ext failed rfl⟩
  simp only [List.map_cons, writeBatches, Program.value_bind, value, Program.value_pure, Prod.mk.injEq,
    reduceCtorEq, false_and] at all

theorem encodes_starts {writer : CodecWriter W} {batch : RecordBatch} {batches : List RecordBatch} {bytes : List UInt8}
    (encoded : Encodes codec library writer (batch :: batches) bytes) :
    (codec.writeBatch library writer batch).output <+: bytes := by
  cases wrote : (codec.writeBatch library writer batch).value with
  | mk result written =>
    cases result with
    | error error => exact absurd encoded (not_encodes_cons codec library batches bytes (congrArg Prod.fst wrote))
    | ok _ =>
      obtain ⟨rest, -, rfl⟩ := (encodes_cons codec library batches bytes wrote).mp encoded
      exact List.prefix_append _ _

/-- One encoding succeeds when its writer starts, takes each batch and finishes. -/
theorem encode_ok (schema : Schema) (batches : List RecordBatch) (bytes : List UInt8) :
    codec.encode library schema batches = some (.ok bytes) ↔
      ∃ writer rest, (startWriter library schema).value = .ok writer ∧ Encodes codec library writer batches rest ∧
        bytes = (startWriter library schema).output ++ rest := by
  rw [encode_eq, encodeStream]
  simp only [Encodes, Program.value_bind, Program.output_bind, Option.some.injEq]
  constructor
  · intro encoded
    cases started : (startWriter library schema).value with
    | error error => simp [started, Except.map] at encoded
    | ok writer =>
      cases wrote : (codec.writeBatches library (batches.map .ok) writer).value with
      | mk result written =>
        cases result with
        | error error => simp [started, wrote, Except.map] at encoded
        | ok _ =>
          cases done : (codec.finish library written).value with
          | error error => simp [started, wrote, done, Except.map] at encoded
          | ok _ =>
            simp only [started, wrote, done, Program.value_bind, Program.output_bind, Except.map] at encoded
            exact ⟨writer, _, rfl, ⟨written, wrote, done, rfl⟩, (Except.ok.inj encoded).symm⟩
  · rintro ⟨writer, _, started, ⟨written, wrote, done, rfl⟩, rfl⟩
    simp only [started, wrote, done, Program.value_bind, Program.output_bind, Except.map]

theorem startWriter_schema {schema : Schema} {writer : CodecWriter W}
    (started : (startWriter library schema).value = .ok writer) : writer.schema = schema := by
  simp only [startWriter, Program.value_bind] at started
  split at started
  next =>
    cases started
    rfl
  next => cases started

end Encoded

end Codec

end FsspecData
