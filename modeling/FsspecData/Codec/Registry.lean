import FsspecData.Codec.Writer
import FsspecData.Library.Fallible

/-! The codec registry, and what decoding is told of a schema. -/
namespace FsspecData

open Fallible

structure CodecRegistry where
  codecs : DataFormat → Option Codec

namespace CodecRegistry

def new : CodecRegistry := ⟨fun _ => none⟩

/-- A later codec for a format replaces the earlier one. -/
def register (registry : CodecRegistry) (codec : Codec) : CodecRegistry :=
  ⟨fun format => if format = codec.format then some codec else registry.codecs format⟩

def get (registry : CodecRegistry) (format : DataFormat) : Except Codec.CodecError Codec :=
  orFail (.codecNotRegistered format.asStr) (registry.codecs format)

end CodecRegistry

namespace Codec

def defaultRegistry : CodecRegistry :=
  ((((CodecRegistry.new.register ArrowIpcCodec).register ParquetCodec).register CsvCodec).register
    JsonLinesCodec).register AvroCodec

/-- The codec that Python asks for by the name of its format. -/
def named (format : String) : Except CodecError Codec := do
  defaultRegistry.get (← parseFormat format)

/-- Every format has its own codec. -/
theorem named_asStr (format : DataFormat) : ∃ codec, named format.asStr = .ok codec ∧ codec.format = format := by
  cases format
  · exact ⟨ArrowIpcCodec, rfl, rfl⟩
  · exact ⟨ParquetCodec, rfl, rfl⟩
  · exact ⟨CsvCodec, rfl, rfl⟩
  · exact ⟨JsonLinesCodec, rfl, rfl⟩
  · exact ⟨AvroCodec, rfl, rfl⟩

def requiredSchema (format : DataFormat) (schema : Option Schema) : Except CodecError Schema :=
  orFail (.decodeSchemaRequired format.asStr) schema

/-- `decode_reader`, whose library reader is `read`, with its schema and what it yields: formats
that carry their schema are not told one, and the stream of the others has the one they are
told. -/
def decodeReader {D : Type} (codec : Codec) (read : Option Schema → Except CodecError (Schema × D))
    (schema : Option Schema) : Except CodecError (Schema × D) :=
  if codec.needsSchema then do
    let schema ← requiredSchema codec.format schema
    let (_, items) ← read (some schema)
    .ok (schema, items)
  else read none

/-- What a format that is told its schema is decoded with. -/
theorem decodeReader_told {D : Type} {codec : Codec} {read : Option Schema → Except CodecError (Schema × D)}
    {schema stream : Schema} {items : D} (needs : codec.needsSchema = true) :
    codec.decodeReader read (some schema) = .ok (stream, items) ↔
      stream = schema ∧ ∃ own, read (some schema) = .ok (own, items) := by
  rw [decodeReader, if_pos needs]
  constructor
  · intro decoded
    obtain ⟨_, required, decoded⟩ := bind_eq_ok.mp decoded
    obtain ⟨⟨own, _⟩, found, made⟩ := bind_eq_ok.mp decoded
    cases required
    cases made
    exact ⟨rfl, own, found⟩
  · rintro ⟨rfl, own, found⟩
    exact bind_eq_ok.mpr ⟨stream, rfl, bind_eq_ok.mpr ⟨_, found, rfl⟩⟩

end Codec

end FsspecData
