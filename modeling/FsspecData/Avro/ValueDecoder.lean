import FsspecData.Base
import Mathlib.Data.List.Basic

/-! The decoder of individual Avro values. The Avro library's decoder and the
concatenation of batches are parameters. The retry loop of a push takes fuel, and a push
without enough of it has no result. -/
namespace FsspecData.Avro

/-- How values are framed: bare, or behind a schema ID with the writers' schemas known. -/
inductive AvroFraming where
  | unframed
  | confluent (writers : List (UInt32 × String))
  deriving DecidableEq

/-- The library's decoder, its state type and the batches it flushes. -/
structure Decoder (D B : Type) where
  decode : D → List UInt8 → Except ArrowError Nat × D
  flush : D → Except ArrowError (Option B) × D
  batchIsFull : D → Bool
  concatBatches : List B → Except ArrowError B

structure AvroValueDecoder (D B : Type) where
  decoder : D
  framed : Bool
  decoded : List B

/-- A parse error, as the library displays it. -/
def trailingBytes (count : Nat) : InterchangeError :=
  .arrow ⟨"Parser error: Avro value has " ++ toString count ++ " bytes after its datum"⟩

namespace AvroValueDecoder

variable {D B : Type} (library : Decoder D B)

/-- A fresh decoder around the one the library built. -/
def new (framing : AvroFraming) (built : D) : AvroValueDecoder D B where
  decoder := built
  framed := framing ≠ .unframed
  decoded := []

/-- Moves the decoded rows out of the decoder, and says whether there were any. -/
def setAside (s : AvroValueDecoder D B) : Except InterchangeError Bool × AvroValueDecoder D B :=
  match library.flush s.decoder with
  | (.error source, decoder) => (.error (.arrow source), { s with decoder })
  | (.ok batch, decoder) => (.ok batch.isSome, { s with decoder, decoded := s.decoded ++ batch.toList })

/-- The retry loop, and the check after it. -/
def retry : Nat → AvroValueDecoder D B → List UInt8 → Nat →
    Option (Except InterchangeError Unit × AvroValueDecoder D B)
  | 0, _, _, _ => none
  | fuel + 1, s, value, consumed =>
    if s.framed ∧ consumed < value.length then
      match setAside library s with
      | (.error error, s) => some (.error error, s)
      | (.ok false, s) => some (.error (trailingBytes (value.length - consumed)), s)
      | (.ok true, s) =>
        match library.decode s.decoder (value.drop consumed) with
        | (.error source, decoder) => some (.error (.arrow source), { s with decoder })
        | (.ok more, decoder) => retry fuel { s with decoder } value (consumed + more)
    else if consumed ≠ value.length then
      some (.error (trailingBytes (value.length - consumed)), s)
    else some (.ok (), s)

/-- A push once the decoder has room. -/
def decodeValue (fuel : Nat) (s : AvroValueDecoder D B) (value : List UInt8) :
    Option (Except InterchangeError Unit × AvroValueDecoder D B) :=
  match library.decode s.decoder value with
  | (.error source, decoder) => some (.error (.arrow source), { s with decoder })
  | (.ok consumed, decoder) => retry library fuel { s with decoder } value consumed

def push (fuel : Nat) (s : AvroValueDecoder D B) (value : List UInt8) :
    Option (Except InterchangeError Unit × AvroValueDecoder D B) :=
  match if library.batchIsFull s.decoder then setAside library s else (.ok false, s) with
  | (.error error, s) => some (.error error, s)
  | (.ok _, s) => decodeValue library fuel s value

def flush (s : AvroValueDecoder D B) : Except InterchangeError (Option B) × AvroValueDecoder D B :=
  match setAside library s with
  | (.error error, s) => (.error error, s)
  | (.ok _, s) =>
    if s.decoded.isEmpty then (.ok none, s)
    else
      match library.concatBatches s.decoded with
      | .ok batch => (.ok (some batch), { s with decoded := [] })
      | .error source => (.error (.arrow source), { s with decoded := [] })

end AvroValueDecoder

end FsspecData.Avro
